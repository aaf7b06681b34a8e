import FormulaGrid.CellKey
import FormulaGrid.IntegerText

/-!
# Column labels and cell references

Columns are labelled A to Z, AA to ZZ and so on, which counts in base 26 without a zero. A reference
is a label followed by the digits of a row, and possibly one line feed at the very end.
-/
namespace FormulaGrid
open Digits

namespace Reference

/-- Column letters are the capitals A to Z only. -/
def isLetter (c : Char) : Bool := 'A' ≤ c && c ≤ 'Z'

def letter (n : Nat) : Char := Char.ofNat (65 + n)

/-- The label with the given place in the list of all labels, the empty one having place 0. -/
def labelAt : Nat → Text
  | 0 => []
  | n + 1 => labelAt (n / 26) ++ [letter (n % 26)]
decreasing_by omega

/-- Columns left of the first have the empty label. -/
def columnLabel (col : Int) : Text := labelAt (col + 1).toNat

/-- Any characters are counted by their distance from the one before A. -/
def columnIndex (label : Text) : Int :=
  label.foldl (fun (n : Int) c => n * 26 + (c.toNat - 64)) 0 - 1

/-- The label and the row digits of a reference. -/
def split? (t : Text) : Option (Text × Text) :=
  let label := t.takeWhile isLetter
  let digits := (t.dropWhile isLetter).takeWhile isDigit
  let rest := (t.dropWhile isLetter).dropWhile isDigit
  if label ≠ [] ∧ digits ≠ [] ∧ (rest = [] ∨ rest = ['\n']) then some (label, digits) else none

def isReference (t : Text) : Bool := (split? t).isSome

theorem isLetter_iff {c : Char} : isLetter c ↔ 65 ≤ c.toNat ∧ c.toNat ≤ 90 := by
  simp [isLetter, Char.le_def, UInt32.le_iff_toNat_le]

theorem not_isDigit_of_isLetter {c : Char} (h : isLetter c) : isDigit c = false := by
  have hc := isLetter_iff.mp h
  have hn : ∀ n < 91, 65 ≤ n → (digitBlocks.find? fun z => z ≤ n && n < z + 10) = none := by
    decide
  simp [isDigit, digitValue?, hn _ (by omega) hc.1]

theorem not_isLetter_of_isDigit {c : Char} (h : isDigit c) : isLetter c = false := by
  cases hletter : isLetter c with
  | false => rfl
  | true => simp [not_isDigit_of_isLetter hletter] at h

theorem columnLabel_of_neg {col : Int} (h : col < 0) : columnLabel col = [] := by
  have : (col + 1).toNat = 0 := by omega
  rw [columnLabel, this, labelAt]

end Reference

namespace CellKey
open Reference

def ofReference (t : Text) : Except Fault CellKey :=
  match split? t with
  | none => .error (.formula (.invalidReference t))
  | some (label, digits) => (IntegerText.readDigits digits).map fun row => ⟨row, columnIndex label⟩

/-- The row is written as it is, even below 1. -/
def toReference (key : CellKey) : Except Fault Text :=
  (IntegerText.print key.row).map (columnLabel key.col ++ ·)

end CellKey

end FormulaGrid
