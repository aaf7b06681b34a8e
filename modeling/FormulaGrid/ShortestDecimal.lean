import FormulaGrid.Binary64

/-!
# The shortest decimal of a magnitude

Among the decimals that read back as a given magnitude, `shortest` takes one with the fewest digits,
and of those the nearest, the even one of two equally near. On the grid of decimals with n digits only
the two neighbours of the magnitude have to be tried.
-/
namespace FormulaGrid

/-- coefficient * 10 ^ exponent -/
structure Decimal where
  coefficient : Nat
  exponent : Int
  deriving DecidableEq, Repr

namespace Decimal

def rank (d : Decimal) : Nat := Binary64.decimalRank d.coefficient d.exponent

def digits (d : Decimal) : List Char := Nat.toDigits 10 d.coefficient

/-- How many digits stand before the point when the decimal is written out. -/
def pointPosition (d : Decimal) : Int := d.digits.length + d.exponent

/-- The same decimal without trailing zeros in its coefficient. -/
def stripZeros (coefficient : Nat) (exponent : Int) : Decimal :=
  if h : coefficient % 10 = 0 ∧ coefficient ≠ 0 then stripZeros (coefficient / 10) (exponent + 1)
  else ⟨coefficient, exponent⟩
termination_by coefficient
decreasing_by omega

/-- How many digits of p / q stand before the point; not positive when zeros follow it. -/
def leadingPosition (p q : Nat) : Int :=
  if q ≤ p then (Nat.toDigits 10 (p / q)).length
  else 1 - (Nat.toDigits 10 ((q - 1) / p)).length

/-- Numerator and denominator of p / q in units of 10 ^ e. -/
def rescale (p q : Nat) (e : Int) : Nat × Nat :=
  if 0 ≤ e then (p, q * Nat.pow 10 e.toNat) else (p * Nat.pow 10 (-e).toNat, q)

/-- The better of the two neighbours of a magnitude on the grid 10 ^ e that reads back. -/
def neighbour? (rank : Nat) (e : Int) : Option Decimal :=
  let (p, q) := rescale (Binary64.units rank) Binary64.unitsPerOne e
  let below : Decimal := ⟨p / q, e⟩
  let above : Decimal := ⟨p / q + 1, e⟩
  let nearest : Decimal := ⟨Binary64.halfEven p q, e⟩
  if below.rank = rank ∧ above.rank = rank then some nearest
  else if below.rank = rank then some below
  else if above.rank = rank then some above
  else none

/-- Every finite magnitude has a finite decimal, since a unit is 5 ^ 1074 * 10 ^ -1074. -/
def exact (rank : Nat) : Decimal := ⟨Binary64.units rank * Nat.pow 5 1074, -1074⟩

/-- Seventeen digits always suffice. -/
def shortest (rank : Nat) : Decimal :=
  let position := leadingPosition (Binary64.units rank) Binary64.unitsPerOne
  let grids := (List.range 17).map fun (n : Nat) => position - (n + 1)
  let d := (grids.findSome? (neighbour? rank)).getD (exact rank)
  stripZeros d.coefficient d.exponent

theorem neighbour?_rank {rank : Nat} {e : Int} {d : Decimal} (h : neighbour? rank e = some d) :
    d.rank = rank := by
  simp only [neighbour?] at h
  split at h
  · obtain rfl := Option.some.inj h
    unfold Binary64.halfEven
    dsimp only
    split <;> simp_all
  · split at h
    · exact Option.some.inj h ▸ ‹_›
    · split at h
      · exact Option.some.inj h ▸ ‹_›
      · simp at h

end Decimal

end FormulaGrid
