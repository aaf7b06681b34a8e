/-!
# Double-precision numbers

Exact arithmetic on the IEEE 754 binary64 data. A finite magnitude is named by its rank among the
magnitudes, and measured in units of 2 ^ -1074, the least positive one, so that every value is a
natural number of units. Each operation rounds its exact result once, to nearest with ties to even.
-/
namespace FormulaGrid

/-- How many finite magnitudes there are: 2047 exponents with 2 ^ 52 fractions each. -/
def magnitudeCount : Nat := 2047 * Nat.pow 2 52

inductive Binary64 where
  | nan
  | infinity (negative : Bool)
  | finite (negative : Bool) (rank : Fin magnitudeCount)
  deriving DecidableEq, Repr

namespace Binary64

/-- The magnitudes of one scale are consecutive multiples of 2 ^ scale units. -/
def scale (rank : Nat) : Nat := rank / Nat.pow 2 52 - 1

def units (rank : Nat) : Nat := (rank - scale rank * Nat.pow 2 52) * Nat.pow 2 (scale rank)

/-- The integer nearest to the quotient p / q, the even one of two. -/
def halfEven (p q : Nat) : Nat :=
  let d := p / q
  if 2 * (p % q) < q ∨ (2 * (p % q) = q ∧ d % 2 = 0) then d else d + 1

/-- The rank nearest to p / q units, were there no largest one. -/
def nearestRank (p q : Nat) : Nat :=
  let s := (p / q).log2 - 52
  s * Nat.pow 2 52 + halfEven p (q * Nat.pow 2 s)

def ofRank (negative : Bool) (rank : Nat) : Binary64 :=
  if h : rank < magnitudeCount then .finite negative ⟨rank, h⟩ else .infinity negative

def round (negative : Bool) (p q : Nat) : Binary64 := ofRank negative (nearestRank p q)

def zero (negative : Bool) : Binary64 := ofRank negative 0

/-- One, measured in units. -/
def unitsPerOne : Nat := Nat.pow 2 1074

/-- The rank nearest to coefficient * 10 ^ exponent. -/
def decimalRank (coefficient : Nat) (exponent : Int) : Nat :=
  if 0 ≤ exponent then nearestRank (coefficient * Nat.pow 10 exponent.toNat * unitsPerOne) 1
  else nearestRank (coefficient * unitsPerOne) (Nat.pow 10 (-exponent).toNat)

/-- The double nearest to a decimal. Far beyond either end of the range the power of ten is not
computed: from 10 ^ 310 on all is infinite, and below 2 ^ -1075 all is zero. -/
def ofDecimal (negative : Bool) (coefficient : Nat) (exponent : Int) : Binary64 :=
  if coefficient = 0 then zero negative
  else if 310 ≤ exponent then .infinity negative
  else if (coefficient.log2 : Int) + 1076 ≤ 3 * -exponent then zero negative
  else ofRank negative (decimalRank coefficient exponent)

def signed (negative : Bool) (n : Nat) : Int := if negative then -n else n

def neg : Binary64 → Binary64
  | .nan => .nan
  | .infinity s => .infinity (!s)
  | .finite s r => .finite (!s) r

def add : Binary64 → Binary64 → Binary64
  | .nan, _ => .nan
  | _, .nan => .nan
  | .infinity s, .infinity t => if s = t then .infinity s else .nan
  | .infinity s, .finite _ _ => .infinity s
  | .finite _ _, .infinity t => .infinity t
  | .finite s a, .finite t b =>
    let total := signed s (units a) + signed t (units b)
    if total = 0 then zero (s && t) else round (total < 0) total.natAbs 1

def sub (x y : Binary64) : Binary64 := add x (neg y)

def mul : Binary64 → Binary64 → Binary64
  | .nan, _ => .nan
  | _, .nan => .nan
  | .infinity s, .infinity t => .infinity (s ^^ t)
  | .infinity s, .finite t b => if b.val = 0 then .nan else .infinity (s ^^ t)
  | .finite s a, .infinity t => if a.val = 0 then .nan else .infinity (s ^^ t)
  | .finite s a, .finite t b => round (s ^^ t) (units a * units b) unitsPerOne

def div : Binary64 → Binary64 → Binary64
  | .nan, _ => .nan
  | _, .nan => .nan
  | .infinity _, .infinity _ => .nan
  | .infinity s, .finite t _ => .infinity (s ^^ t)
  | .finite s _, .infinity t => zero (s ^^ t)
  | .finite s a, .finite t b =>
    if b.val = 0 then (if a.val = 0 then .nan else .infinity (s ^^ t))
    else round (s ^^ t) (units a * unitsPerOne) (units b)

def isFinite : Binary64 → Bool
  | .finite _ _ => true
  | _ => false

def isZero : Binary64 → Bool
  | .finite _ r => r.val = 0
  | _ => false

/-- The value of a finite datum that has no fraction. -/
def integer? : Binary64 → Option Int
  | .finite s r =>
    if units r % unitsPerOne = 0 then some (signed s (units r / unitsPerOne)) else none
  | _ => none

/-- The place of the sign in a word. -/
def signPlace : Nat := Nat.pow 2 63

/-- The 64-bit word of a datum, read as a number; every NaN has the quiet positive word. -/
def toBits : Binary64 → Nat
  | .nan => 0x7ff8000000000000
  | .infinity s => (if s then signPlace else 0) + magnitudeCount
  | .finite s r => (if s then signPlace else 0) + r

def ofBits (word : Nat) : Binary64 :=
  let negative := word / signPlace % 2 = 1
  let rank := word % signPlace
  if rank ≤ magnitudeCount then ofRank negative rank else .nan

theorem units_zero : units 0 = 0 := rfl

theorem ofRank_val (negative : Bool) (rank : Fin magnitudeCount) :
    ofRank negative rank = .finite negative rank := by
  simp [ofRank]

theorem ofBits_toBits (x : Binary64) : ofBits (toBits x) = x := by
  cases x with
  | nan => decide +kernel
  | infinity s => cases s <;> decide +kernel
  | finite s r =>
    have hr := r.isLt
    have hs : r.val < signPlace := Nat.lt_trans hr (by decide)
    cases s
    · simp [toBits, ofBits, Nat.mod_eq_of_lt hs, Nat.div_eq_of_lt hs, Nat.le_of_lt hr, ofRank_val]
    · have hd : (signPlace + r.val) / signPlace = 1 := by
        rw [Nat.add_div_left _ (by decide), Nat.div_eq_of_lt hs]
      simp [toBits, ofBits, hd, Nat.mod_eq_of_lt hs, Nat.le_of_lt hr, ofRank_val]

end Binary64

end FormulaGrid
