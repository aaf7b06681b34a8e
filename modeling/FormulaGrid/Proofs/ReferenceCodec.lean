import FormulaGrid.Proofs.ShiftedText
import Mathlib.Algebra.Group.Nat.Defs

/-!
# Writing and reading references

The label of a column reads back as the column, every word of letters is the label of one column, and the
reference of a cell in the grid, when its row can be printed at all, reads back as the cell.
-/
namespace FormulaGrid
open Digits

namespace Reference

theorem letter_toNat {n : Nat} (h : n < 26) : (letter n).toNat = 65 + n := by
  revert n
  decide

theorem isLetter_letter {n : Nat} (h : n < 26) : isLetter (letter n) := by
  revert n
  decide

theorem labelAt_succ (n : Nat) : labelAt (n + 1) = labelAt (n / 26) ++ [letter (n % 26)] := by
  rw [labelAt]

theorem isLetter_of_mem_labelAt {n : Nat} {c : Char} (h : c ∈ labelAt n) : isLetter c := by
  induction n using Nat.strongRecOn with
  | ind n ih =>
    cases n with
    | zero => simp [labelAt] at h
    | succ n =>
      rw [labelAt_succ] at h
      rcases List.mem_append.mp h with h | h
      · exact ih (n / 26) (by omega) h
      · rw [List.mem_singleton.mp h]
        exact isLetter_letter (Nat.mod_lt n (by decide))

theorem columnIndex_append_singleton (label : Text) (c : Char) :
    columnIndex (label ++ [c]) = (columnIndex label + 1) * 26 + (c.toNat - 64) - 1 := by
  simp [columnIndex]

/-- The place of a label in the list of all labels is one more than the index of its column. -/
theorem columnIndex_labelAt (n : Nat) : columnIndex (labelAt n) = n - 1 := by
  induction n using Nat.strongRecOn with
  | ind n ih =>
    cases n with
    | zero => simp [labelAt, columnIndex]
    | succ n =>
      rw [labelAt_succ, columnIndex_append_singleton, ih (n / 26) (by omega),
        letter_toNat (Nat.mod_lt n (by decide))]
      omega

theorem columnIndex_columnLabel {col : Int} (h : 0 ≤ col) : columnIndex (columnLabel col) = col := by
  rw [columnLabel, columnIndex_labelAt]
  omega

theorem labelAt_append_singleton {place : Nat} {c : Char} (hc : isLetter c) :
    labelAt (26 * place + (c.toNat - 64)) = labelAt place ++ [c] := by
  obtain ⟨hlow, hhigh⟩ := isLetter_iff.mp hc
  obtain ⟨n, hn⟩ : ∃ n, c.toNat = 65 + n := ⟨c.toNat - 65, by omega⟩
  have hplace : 26 * place + (c.toNat - 64) = 26 * place + n + 1 := by omega
  have hdiv : (26 * place + n) / 26 = place := by omega
  have hmod : (26 * place + n) % 26 = n := by omega
  have hletter : letter n = c := by rw [letter, ← hn, Char.ofNat_toNat]
  rw [hplace, labelAt_succ, hdiv, hmod, hletter]

/-- Every word of letters is the label at some place. -/
theorem exists_labelAt {label : Text} (h : ∀ c ∈ label, isLetter c) :
    ∃ place : Nat, columnIndex label = place - 1 ∧ labelAt place = label := by
  induction label using List.reverseRecOn with
  | nil => exact ⟨0, rfl, by rw [labelAt]⟩
  | append_singleton label c ih =>
    obtain ⟨hlabel, hc⟩ := List.forall_mem_append.mp h
    obtain ⟨place, hindex, rfl⟩ := ih hlabel
    have hletter : isLetter c := hc c (by simp)
    refine ⟨26 * place + (c.toNat - 64), ?_, labelAt_append_singleton hletter⟩
    have := isLetter_iff.mp hletter
    rw [columnIndex_append_singleton, hindex]
    omega

theorem columnLabel_columnIndex {label : Text} (h : ∀ c ∈ label, isLetter c) :
    columnLabel (columnIndex label) = label := by
  obtain ⟨place, hindex, hlabel⟩ := exists_labelAt h
  have hplace : (columnIndex label + 1).toNat = place := by omega
  rw [columnLabel, hplace, hlabel]

theorem columnIndex_nonneg {label : Text} (hne : label ≠ []) (h : ∀ c ∈ label, isLetter c) :
    0 ≤ columnIndex label := by
  obtain ⟨place, hindex, hlabel⟩ := exists_labelAt h
  have hplace : place ≠ 0 := by
    rintro rfl
    exact hne (by rw [← hlabel, labelAt])
  omega

theorem columnLabel_ne_nil {col : Int} (h : 0 ≤ col) : columnLabel col ≠ [] := by
  have hplace : (col + 1).toNat = col.toNat + 1 := by omega
  simp [columnLabel, hplace, labelAt_succ]

theorem isLetter_of_mem_columnLabel {col : Int} {c : Char} (h : c ∈ columnLabel col) : isLetter c :=
  isLetter_of_mem_labelAt h

end Reference

namespace IntegerText

theorem written_of_nonneg {n : Int} (h : 0 ≤ n) : written n = Nat.toDigits 10 n.natAbs := by
  rw [written, if_neg (by omega)]

theorem isDigit_of_mem_written {n : Int} (h : 0 ≤ n) {c : Char} (hc : c ∈ written n) :
    isDigit c := by
  rw [written_of_nonneg h] at hc
  exact isDigit_toDigits hc

theorem written_ne_nil (n : Int) : written n ≠ [] := by
  unfold written
  split
  · simp
  · exact Nat.toDigits_ne_nil

theorem digitsValue_written {n : Int} (h : 0 ≤ n) : (digitsValue (written n) : Int) = n := by
  rw [written_of_nonneg h, digitsValue_toDigits]
  omega

theorem digitsValue_lt_pow (digits : Text) : digitsValue digits < 10 ^ digits.length := by
  induction digits using List.reverseRecOn with
  | nil => decide
  | append_singleton digits c ih =>
    have hc : (digitValue? c).getD 0 < 10 := by
      cases h : digitValue? c with
      | none => decide
      | some d => exact digitValue?_lt h
    rw [digitsValue_append_singleton, List.length_append, List.length_singleton, Nat.pow_succ]
    omega

/-- The number zero is a zero, and any other begins with another digit. -/
theorem toDigits_shape (n : Nat) : Nat.toDigits 10 n = ['0'] ∨
    ∃ c t, Nat.toDigits 10 n = c :: t ∧ '1' ≤ c ∧ c ≤ '9' := by
  induction n using Nat.strongRecOn with
  | ind n ih =>
    rw [Nat.toDigits_eq_if (by decide)]
    split
    · rename_i hn
      have hdigit : ∀ d < 10, Nat.digitChar d = '0' ∨ '1' ≤ Nat.digitChar d ∧ Nat.digitChar d ≤ '9' := by
        decide
      rcases hdigit n hn with hzero | hother
      · exact Or.inl (by rw [hzero])
      · exact Or.inr ⟨_, [], rfl, hother⟩
    · rename_i hn
      rcases ih (n / 10) (by omega) with hzero | ⟨c, t, hshape, hc⟩
      · have hvalue := digitsValue_toDigits (n / 10)
        rw [hzero] at hvalue
        have hnone : digitsValue ['0'] = 0 := by decide
        omega
      · exact Or.inr ⟨c, t ++ [Nat.digitChar (n % 10)], by rw [hshape]; rfl, hc⟩

end IntegerText

namespace CellKey
open Reference IntegerText

variable {label digits : Text}

theorem ofReference_short {t : Text} (h : split? t = some (label, digits))
    (hshort : digits.length ≤ digitLimit) :
    ofReference t = .ok ⟨digitsValue digits, columnIndex label⟩ := by
  simp only [ofReference, h, readDigits, if_pos hshort]
  rfl

theorem ofReference_overlong {t : Text} (h : split? t = some (label, digits))
    (hlong : digitLimit < digits.length) : ofReference t = .error .numeralTooLong := by
  have hnot : ¬digits.length ≤ digitLimit := by omega
  simp only [ofReference, h, readDigits, if_neg hnot]
  rfl

/-- What is written for a cell in the grid is a label and digits. -/
theorem spells_written {row col : Int} (hrow : 0 ≤ row) (hcol : 0 ≤ col) :
    RefShift.Spells (columnLabel col) (written row) where
  label_ne_nil := columnLabel_ne_nil hcol
  letters _ := isLetter_of_mem_columnLabel
  digits_ne_nil := written_ne_nil row
  digits _ := isDigit_of_mem_written hrow

theorem ofReference_written {row col : Int} (hrow : 0 ≤ row) (hcol : 0 ≤ col)
    (hshort : (Nat.toDigits 10 row.natAbs).length ≤ digitLimit) :
    ofReference (columnLabel col ++ written row) = .ok ⟨row, col⟩ := by
  rw [ofReference_short (spells_written hrow hcol).split? (by rwa [written_of_nonneg hrow]),
    digitsValue_written hrow, columnIndex_columnLabel hcol]

end CellKey

end FormulaGrid
