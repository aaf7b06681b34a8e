import FormulaGrid.Digits
import FormulaGrid.Fault

/-!
# Decimal integers

Conversion between integers and decimal text, in both directions, is limited to 4300 digits.
Leading zeros count when reading; a sign never counts. An integer that stands alone may be surrounded
by blanks and may have single underscores between its digits.

The fields of a request are read by a grammar of their own, in ASCII. Leading zeros are dropped before
anything is counted, together with all underscores among them, and a minus sign may stand after them
as well as before; a fraction of zeros is dropped, and then single underscores.
-/
namespace FormulaGrid.IntegerText
open Digits

def digitLimit : Nat := 4300

def readDigits (digits : Text) : Except Fault Nat :=
  if digits.length ≤ digitLimit then .ok (digitsValue digits) else .error .numeralTooLong

def written (n : Int) : Text :=
  if n < 0 then '-' :: Nat.toDigits 10 n.natAbs else Nat.toDigits 10 n.natAbs

def print (n : Int) : Except Fault Text :=
  if (Nat.toDigits 10 n.natAbs).length ≤ digitLimit then .ok (written n)
  else .error .numeralTooLong

/-- Around an integer the control separators are no blanks. -/
def isPadding (c : Char) : Bool := Text.isBlank c && !(0x1c ≤ c.toNat && c.toNat ≤ 0x1f)

def trimPadding (t : Text) : Text :=
  ((t.dropWhile isPadding).reverse.dropWhile isPadding).reverse

/-- The digits of a text that may have single underscores between them. -/
def ungroup : Text → Option Text
  | [] => none
  | [c] => if isDigit c then some [c] else none
  | c :: '_' :: t => if isDigit c then (ungroup t).map (c :: ·) else none
  | c :: t => if isDigit c then (ungroup t).map (c :: ·) else none

def readSigned? (t : Text) : Option Int := do
  let (negative, t) := takeSign t
  let n ← (readDigits (← ungroup t)).toOption
  return if negative then -n else n

def read? (t : Text) : Option Int := readSigned? (trimPadding t)

/-- What is left of a number after a zero when the zeros and underscores that follow are dropped too. Of
the dropped characters the last one stays if nothing or a point comes next. -/
def afterZeros (last : Char) : Text → Option Text
  | [] => some [last]
  | c :: t =>
    if c = '0' ∨ c = '_' then afterZeros c t
    else if c = '.' then some (last :: c :: t)
    else if c = '-' ∨ ('1' ≤ c ∧ c ≤ '9') then some (c :: t)
    else none

/-- A number without its leading zeros. -/
def dropZeros : Text → Option Text
  | [] => none
  | c :: t =>
    if c = '0' then afterZeros c t
    else if '1' ≤ c ∧ c ≤ '9' then some (c :: t)
    else none

/-- The text before a fraction of one or more zeros. -/
def dropZeroFraction (t : Text) : Text :=
  match t.span (· ≠ '.') with
  | (whole, '.' :: c :: fraction) => if (c :: fraction).all (· = '0') then whole else t
  | _ => t

/-- The text without underscores, none of which may be the first character, the last one or next to
another. -/
def dropUnderscores (t : Text) : Option Text :=
  let pieces := t.splitOn '_'
  if t.contains '_' && pieces.any List.isEmpty then none else some pieces.flatten

/-- Reads an integer in its shortest form. The limit counts its digits without a sign. -/
def readShortest? (t : Text) : Option Int :=
  let (negative, digits) := match t with
    | '-' :: digits => (true, digits)
    | digits => (false, digits)
  if (digits = ['0'] ∨ digits.head?.any ('1' ≤ ·)) ∧ digits.all Char.isDigit ∧
      digits.length ≤ digitLimit then
    some (if negative then -digitsValue digits else digitsValue digits)
  else none

/-- Reads the integer in a field of a request. -/
def readField? (t : Text) : Option Int := do
  let (negative, number) := takeSign (trimPadding t)
  let number ← dropZeros number
  let signed := if negative then '-' :: number else number
  readShortest? (← dropUnderscores (dropZeroFraction signed))

end FormulaGrid.IntegerText
