import FormulaGrid.Numeral
import FormulaGrid.ShortestDecimal

/-!
# Displayed numbers

A number is written by its shortest digits, with an exponent if the point is far from them. What is
written is read as an exact decimal and laid out again in full if the number is whole and below
10 ^ 21, then without a fraction, or not below 10 ^ -6. From the exponent of any other number the
leading zeros are cut off. Either zero is displayed without a sign.
-/
namespace FormulaGrid.NumberDisplay

def zeros (n : Nat) : Text := List.replicate n '0'

def sign (negative : Bool) : Text := if negative then ['-'] else []

/-- Digits d1 ... dk that stand for 0.d1...dk * 10 ^ position, without an exponent. -/
def inFull (digits : Text) (position : Int) : Text :=
  if position ≤ 0 then '0' :: '.' :: zeros (-position).toNat ++ digits
  else if position < digits.length then
    digits.take position.toNat ++ '.' :: digits.drop position.toNat
  else digits ++ zeros (position - digits.length).toNat

/-- The same digits with the point after the first of them. -/
def withExponent (digits : Text) (position : Int) (places : Text) : Text :=
  let mantissa := if digits.length ≤ 1 then digits else digits.take 1 ++ '.' :: digits.drop 1
  mantissa ++ 'e' :: (if 0 < position then '+' else '-') :: places

/-- The digits of an exponent, at least two. -/
def paddedPlaces (n : Nat) : Text := zeros (2 - (Nat.toDigits 10 n).length) ++ Nat.toDigits 10 n

/-- How a number other than zero is written before it is laid out for display. -/
def written (negative : Bool) (rank : Nat) : Text :=
  let d := Decimal.shortest rank
  let position := d.pointPosition
  sign negative ++
    if -4 < position ∧ position ≤ 16 then
      inFull d.digits position ++ (if d.digits.length ≤ position then ['.', '0'] else [])
    else withExponent d.digits position (paddedPlaces (position - 1).natAbs)

/-- The nearest whole number, the even one of two. -/
def whole (d : Decimal) : Decimal :=
  if 0 ≤ d.exponent then d
  else ⟨Binary64.halfEven d.coefficient (Nat.pow 10 (-d.exponent).toNat), 0⟩

/-- The decimal that a text denotes exactly, changed and laid out in full. -/
def rewritten (change : Decimal → Decimal) (t : Text) : Text :=
  match Numeral.scan t with
  | some (.decimal negative coefficient exponent, _) =>
    let d := change ⟨coefficient, exponent⟩
    sign negative ++ inFull d.digits d.pointPosition
  | _ => t

/-- Digits without the zeros that they begin with, but never none. -/
def trimZeros (digits : Text) : Text :=
  match digits.dropWhile (· == '0') with
  | [] => ['0']
  | digits => digits

/-- The text with the leading zeros of each exponent cut off. -/
def trimExponents : Text → Text
  | 'e' :: sign :: rest =>
    let digits := rest.takeWhile Digits.isDigit
    if (sign = '+' ∨ sign = '-') ∧ digits ≠ [] then
      'e' :: sign :: trimZeros digits ++ trimExponents (rest.dropWhile Digits.isDigit)
    else 'e' :: trimExponents (sign :: rest)
  | c :: rest => c :: trimExponents rest
  | [] => []
termination_by t => t.length
decreasing_by
  · exact Nat.lt_succ_of_lt (Nat.lt_succ_of_le (List.dropWhile_suffix _).length_le)
  · exact Nat.lt_succ_self _
  · exact Nat.lt_succ_self _

def display : Binary64 → Text
  | .nan => "NaN".toList
  | .infinity negative => (if negative then "-Infinity" else "Infinity").toList
  | .finite negative rank =>
    if rank.val = 0 then ['0']
    else if (Binary64.finite negative rank).integer?.isSome ∧
        rank.val < Binary64.decimalRank 1 21 then
      rewritten whole (written negative rank)
    else if Binary64.decimalRank 1 (-6) ≤ rank.val ∧ rank.val < Binary64.decimalRank 1 21 then
      rewritten id (written negative rank)
    else trimExponents (written negative rank)

theorem display_zero (negative : Bool) : display (Binary64.zero negative) = ['0'] := by
  cases negative <;> decide

end FormulaGrid.NumberDisplay
