import FormulaGrid.Proofs.WritableCells
import Mathlib.Data.List.TakeDrop

/-!
# Integers in fields

The digits of a number are its shortest form, so an integer that is not negative and can be printed reads
back from the field of a request that carries what was printed.
-/
namespace FormulaGrid.IntegerText
open Digits

variable {n : Nat} {c : Char} {digits : Text}

/-- An ASCII digit is none of the characters that mean something else in a field. -/
theorem plain_of_isDigit (h : c.isDigit) :
    isPadding c = false ∧ c ≠ '.' ∧ c ≠ '_' ∧ c ≠ '+' ∧ c ≠ '-' := by
  have hc : 48 ≤ c.toNat ∧ c.toNat ≤ 57 := by
    simpa [Char.isDigit, UInt32.le_iff_toNat_le] using h
  have hall : ∀ n ≤ 57, 48 ≤ n → let c := Char.ofNat n
      isPadding c = false ∧ c ≠ '.' ∧ c ≠ '_' ∧ c ≠ '+' ∧ c ≠ '-' := by
    decide
  simpa using hall c.toNat hc.2 hc.1

theorem dropWhile_isPadding (h : ∀ c ∈ digits, c.isDigit) : digits.dropWhile isPadding = digits := by
  cases digits with
  | nil => rfl
  | cons c t => simp [(plain_of_isDigit (h c (by simp))).1]

theorem trimPadding_of_isDigit (h : ∀ c ∈ digits, c.isDigit) : trimPadding digits = digits := by
  rw [trimPadding, dropWhile_isPadding h, dropWhile_isPadding (by simpa using h), List.reverse_reverse]

theorem takeSign_of_isDigit (h : ∀ c ∈ digits, c.isDigit) : takeSign digits = (false, digits) := by
  unfold takeSign
  split
  · exact absurd rfl (plain_of_isDigit (h '+' (by simp))).2.2.2.1
  · exact absurd rfl (plain_of_isDigit (h '-' (by simp))).2.2.2.2
  · rfl

theorem dropZeroFraction_of_isDigit (h : ∀ c ∈ digits, c.isDigit) :
    dropZeroFraction digits = digits := by
  have hnone : digits.dropWhile (· ≠ '.') = [] := by
    rw [List.dropWhile_eq_nil_iff]
    intro c hc
    simpa using (plain_of_isDigit (h c hc)).2.1
  unfold dropZeroFraction
  rw [List.span_eq_takeWhile_dropWhile, hnone]

theorem dropUnderscores_of_isDigit (h : ∀ c ∈ digits, c.isDigit) :
    dropUnderscores digits = some digits := by
  have hnone : '_' ∉ digits := fun hc => (plain_of_isDigit (h '_' hc)).2.2.1 rfl
  simp [dropUnderscores, List.splitOn_eq_singleton hnone, hnone]

theorem readShortest?_of_isDigit (h : ∀ c ∈ digits, c.isDigit)
    (hshape : digits = ['0'] ∨ ∃ c t, digits = c :: t ∧ '1' ≤ c ∧ c ≤ '9')
    (hlength : digits.length ≤ digitLimit) : readShortest? digits = some (digitsValue digits) := by
  have hfirst : digits = ['0'] ∨ digits.head?.any ('1' ≤ ·) := by
    refine hshape.imp_right ?_
    rintro ⟨c, t, rfl, hc, -⟩
    simpa using hc
  have hall : digits.all Char.isDigit := by simpa using h
  unfold readShortest?
  split
  rename_i negative rest hsplit
  split at hsplit
  · exact absurd rfl (plain_of_isDigit (h '-' (by simp))).2.2.2.2
  · obtain ⟨rfl, rfl⟩ := Prod.mk.inj hsplit
    rw [if_pos ⟨hfirst, hall, hlength⟩]
    rfl

/-- A number in its shortest form is left as it is. -/
theorem readField?_of_shortest (h : ∀ c ∈ digits, c.isDigit)
    (hshape : digits = ['0'] ∨ ∃ c t, digits = c :: t ∧ '1' ≤ c ∧ c ≤ '9')
    (hlength : digits.length ≤ digitLimit) : readField? digits = some (digitsValue digits) := by
  have hzeros : dropZeros digits = some digits := by
    rcases hshape with rfl | ⟨c, t, rfl, hc⟩
    · rfl
    · have hzero : c ≠ '0' := by
        rintro rfl
        exact absurd hc.1 (by decide)
      rw [dropZeros, if_neg hzero, if_pos hc]
  unfold readField?
  rw [trimPadding_of_isDigit h, takeSign_of_isDigit h]
  simp [hzeros, dropZeroFraction_of_isDigit h, dropUnderscores_of_isDigit h,
    readShortest?_of_isDigit h hshape hlength]

theorem readField?_written {n : Int} (hn : 0 ≤ n) (h : Printable n) :
    readField? (written n) = some n := by
  rw [written_of_nonneg hn, readField?_of_shortest _ (toDigits_shape _)]
  · rw [digitsValue_toDigits]
    exact congrArg some (Int.natAbs_of_nonneg hn)
  · exact length_toDigits_le_iff.mpr h
  · intro c hc
    exact Nat.isDigit_of_mem_toDigits (by decide) (by decide) hc

end FormulaGrid.IntegerText
