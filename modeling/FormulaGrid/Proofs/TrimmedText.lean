import FormulaGrid.Formula
import Mathlib.Data.List.DropRight
import Mathlib.Data.List.TakeWhile

/-!
# Trimmed texts

Trimming twice is trimming once, so the operand of a formula of a single value is not empty.
-/
namespace FormulaGrid

namespace Text

theorem trimStart_trimStart (t : Text) : trimStart (trimStart t) = trimStart t :=
  List.dropWhile_idempotent _ _

theorem trimEnd_trimEnd (t : Text) : trimEnd (trimEnd t) = trimEnd t := by
  simp [trimEnd, List.dropWhile_idempotent]

theorem prefix_trimEnd (t : Text) : trimEnd t <+: t := by
  have h := List.dropWhile_suffix (l := t.reverse) isBlank
  rw [← List.reverse_prefix, List.reverse_reverse] at h
  exact h

/-- A text without blanks in front has none after the end is cut off. -/
theorem trimStart_of_prefix_eq {t u : Text} (h : u <+: t) (ht : trimStart t = t) : trimStart u = u := by
  cases u with
  | nil => rfl
  | cons c u =>
    obtain ⟨rest, rfl⟩ := h
    have hc : ¬isBlank c := by
      simpa [trimStart, List.dropWhile_eq_self_iff] using ht
    simp [trimStart, hc]

theorem trimStart_trim (t : Text) : trimStart (trim t) = trim t :=
  trimStart_of_prefix_eq (prefix_trimEnd _) (trimStart_trimStart t)

theorem trim_trim (t : Text) : trim (trim t) = trim t := by
  rw [trim, trimStart_trim]
  exact trimEnd_trimEnd _

theorem trimStart_of_forall_not {t : Text} (h : ∀ c ∈ t, isBlank c = false) : trimStart t = t := by
  cases t with
  | nil => rfl
  | cons c t => simp [trimStart, h c (by simp)]

theorem trim_of_forall_not {t : Text} (h : ∀ c ∈ t, isBlank c = false) : trim t = t := by
  have hreverse : t.reverse.dropWhile isBlank = t.reverse :=
    trimStart_of_forall_not fun c hc => h c (List.mem_reverse.mp hc)
  rw [trim, trimStart_of_forall_not h, trimEnd, hreverse, List.reverse_reverse]

theorem mem_dropWhile_isBlank {t : Text} {c : Char} (h : c ∈ t) (hc : isBlank c = false) :
    c ∈ t.dropWhile isBlank := by
  rw [← List.takeWhile_append_dropWhile (p := isBlank) (l := t)] at h
  refine (List.mem_append.mp h).resolve_left ?_
  intro hblank
  rw [List.mem_takeWhile_imp hblank] at hc
  cases hc

/-- Trimming takes nothing away but blanks. -/
theorem mem_trim {t : Text} {c : Char} (h : c ∈ t) (hc : isBlank c = false) : c ∈ trim t := by
  have hstart : c ∈ (trimStart t).reverse := List.mem_reverse.mpr (mem_dropWhile_isBlank h hc)
  exact List.mem_reverse.mpr (mem_dropWhile_isBlank hstart hc)

theorem mem_of_mem_trim {t : Text} {c : Char} (h : c ∈ trim t) : c ∈ t :=
  (trimStart_suffix t).subset ((prefix_trimEnd _).subset h)

end Text

namespace Formula

theorem tokenize_nil (isOperator : Char → Bool) : tokenize isOperator [] = [] := rfl

theorem eq_of_tokenize_singleton {isOperator : Char → Bool} {t piece : Text}
    (h : tokenize isOperator t = [piece]) : piece = t := by
  have hf := tokenize_flatten isOperator t
  rw [h] at hf
  simpa using hf

/-- The body of a formula of a single value is its operand. -/
theorem ofBody_value {body operand : Text} (h : ofBody body = .value operand) :
    operand = Text.trim body ∧ body ≠ [] := by
  unfold ofBody at h
  split at h
  · rename_i piece hpiece
    split at h
    · rename_i token htoken
      have hbody := eq_of_tokenize_singleton hpiece
      have htoken := eq_of_tokenize_singleton htoken
      subst hbody htoken
      refine ⟨(Formula.value.inj h).symm, ?_⟩
      rintro rfl
      simp [tokenize_nil] at hpiece
    · simp at h
  · simp at h

theorem parse_value_ne_nil {t operand : Text} (h : parse t = some (.value operand)) :
    Text.trim operand ≠ [] := by
  unfold parse at h
  split at h
  · obtain ⟨rfl, hne⟩ := ofBody_value (Option.some.inj h)
    simpa [Text.trim_trim] using hne
  · simp at h

end Formula

end FormulaGrid
