import FormulaGrid.RefShift
import Mathlib.Data.List.Chain
import Mathlib.Data.List.SplitBy
import Mathlib.Data.List.TakeWhile

/-!
# Shifted texts

Every run of a text is of one kind, so letters that digits follow always make a reference, and a shift
fails only at an integer that is too long.
-/
namespace FormulaGrid

namespace RefShift
open Digits Reference

variable {t run next : Text} {rows cols : Int} {fault : Fault}

theorem kind_eq_letter {c : Char} : kind c = .letter ↔ isLetter c := by
  unfold kind
  split
  · simp_all
  · split <;> simp_all

theorem kind_eq_digit {c : Char} (h : kind c = .digit) : isDigit c := by
  unfold kind at h
  split at h
  · cases h
  · split at h
    · assumption
    · cases h

theorem kind_of_isDigit {c : Char} (h : isDigit c) : kind c = .digit := by
  simp [kind, h, not_isLetter_of_isDigit h]

/-- Letters and digits that make a reference together. -/
structure Spells (label digits : Text) : Prop where
  label_ne_nil : label ≠ []
  letters : ∀ c ∈ label, isLetter c
  digits_ne_nil : digits ≠ []
  digits : ∀ c ∈ digits, isDigit c

/-- A run of letters and one of digits split where they meet, also with one line feed at the end. -/
theorem Spells.split?_append (h : Spells run next) {rest : Text} (hrest : rest = [] ∨ rest = ['\n']) :
    split? (run ++ (next ++ rest)) = some (run, next) := by
  have hfirst : (next ++ rest).takeWhile isLetter = [] ∧ (next ++ rest).dropWhile isLetter = next ++ rest := by
    obtain ⟨c, others, rfl⟩ := List.exists_cons_of_ne_nil h.digits_ne_nil
    have hc : isLetter c = false := not_isLetter_of_isDigit (h.digits c (by simp))
    simp [hc]
  have hlast : rest.takeWhile isDigit = [] ∧ rest.dropWhile isDigit = rest := by
    rcases hrest with rfl | rfl <;> decide
  have htake : (run ++ (next ++ rest)).takeWhile isLetter = run := by
    rw [List.takeWhile_append_of_pos h.letters, hfirst.1, List.append_nil]
  have hdrop : (run ++ (next ++ rest)).dropWhile isLetter = next ++ rest := by
    rw [List.dropWhile_append_of_pos h.letters, hfirst.2]
  have htakeDigits : (next ++ rest).takeWhile isDigit = next := by
    rw [List.takeWhile_append_of_pos h.digits, hlast.1, List.append_nil]
  have hdropDigits : (next ++ rest).dropWhile isDigit = rest := by
    rw [List.dropWhile_append_of_pos h.digits, hlast.2]
  simp only [Reference.split?, htake, hdrop, htakeDigits, hdropDigits]
  simp [h.label_ne_nil, h.digits_ne_nil, hrest]

theorem Spells.split? (h : Spells run next) : split? (run ++ next) = some (run, next) := by
  simpa using h.split?_append (Or.inl rfl)

theorem Spells.of_split? (h : Reference.split? t = some (run, next)) :
    Spells run next ∧ (t = run ++ next ∨ t = run ++ next ++ ['\n']) := by
  simp only [Reference.split?, Option.ite_none_right_eq_some, Option.some.injEq, Prod.mk.injEq] at h
  obtain ⟨⟨hlabel, hdigits, hrest⟩, rfl, rfl⟩ := h
  have ht : t.takeWhile isLetter ++ (t.dropWhile isLetter).takeWhile isDigit ++
      (t.dropWhile isLetter).dropWhile isDigit = t := by
    rw [List.append_assoc, List.takeWhile_append_dropWhile, List.takeWhile_append_dropWhile]
  refine ⟨⟨hlabel, fun c => List.mem_takeWhile_imp, hdigits, fun c => List.mem_takeWhile_imp⟩, ?_⟩
  rcases hrest with hrest | hrest
  · rw [hrest, List.append_nil] at ht
    exact Or.inl ht.symm
  · rw [hrest] at ht
    exact Or.inr ht.symm

theorem spells_replicate {d : Char} {n : Nat} (hd : isDigit d) (hn : n ≠ 0) :
    Spells ['A'] (List.replicate n d) where
  label_ne_nil := by simp
  letters c hc := by
    rw [List.mem_singleton.mp hc]
    decide
  digits_ne_nil := by simpa using hn
  digits c hc := by
    rw [List.eq_of_mem_replicate hc]
    exact hd

/-- Runs that are not empty and of one kind each. -/
structure Homogeneous (runs : List Text) : Prop where
  ne_nil : ∀ run ∈ runs, run ≠ []
  kind : ∀ run ∈ runs, ∀ c ∈ run, kind c = runKind run

theorem homogeneous_runs (t : Text) : Homogeneous (runs t) where
  ne_nil run h := List.ne_nil_of_mem_splitBy h
  kind run h := by
    have hchain := List.isChain_of_mem_splitBy h
    cases run with
    | nil => simp
    | cons c run =>
      have hpair : (c :: run).Pairwise fun a b => RefShift.kind a = RefShift.kind b := by
        simpa [List.isChain_iff_pairwise] using hchain
      intro d hd
      rcases List.mem_cons.mp hd with rfl | hd
      · rfl
      · exact (List.rel_of_pairwise_cons hpair hd).symm

theorem Homogeneous.tail {others : List Text} (h : Homogeneous (run :: others)) :
    Homogeneous others where
  ne_nil other hother := h.ne_nil other (List.mem_cons_of_mem run hother)
  kind other hother := h.kind other (List.mem_cons_of_mem run hother)

theorem Homogeneous.spells {rest : List Text} (h : Homogeneous (run :: next :: rest))
    (hboth : runKind run = .letter ∧ runKind next = .digit) : Spells run next where
  label_ne_nil := h.ne_nil run (by simp)
  letters c hc := by rw [← kind_eq_letter, h.kind run (by simp) c hc, hboth.1]
  digits_ne_nil := h.ne_nil next (by simp)
  digits c hc := kind_eq_digit (by rw [h.kind next (by simp) c hc, hboth.2])

theorem readDigits_fault {digits : Text} (h : IntegerText.readDigits digits = .error fault) :
    fault = .numeralTooLong := by
  unfold IntegerText.readDigits at h
  split at h
  · cases h
  · exact (Except.error.inj h).symm

theorem print_fault {n : Int} (h : IntegerText.print n = .error fault) :
    fault = .numeralTooLong := by
  unfold IntegerText.print at h
  split at h
  · cases h
  · exact (Except.error.inj h).symm

theorem bind_eq_error {α β : Type} {m : Except Fault α} {f : α → Except Fault β}
    (h : m >>= f = .error fault) : m = .error fault ∨ ∃ a, m = .ok a ∧ f a = .error fault := by
  cases m with
  | error other => exact Or.inl (by simpa [bind, Except.bind] using h)
  | ok a => exact Or.inr ⟨a, rfl, h⟩

theorem map_eq_error {α β : Type} {m : Except Fault α} {f : α → β}
    (h : m.map f = .error fault) : m = .error fault := by
  cases m with
  | error other => simpa [Except.map] using h
  | ok a => simp [Except.map] at h

theorem shiftReference_fault (hspells : Spells run next)
    (h : shiftReference (run ++ next) rows cols = .error fault) : fault = .numeralTooLong := by
  rcases bind_eq_error h with hread | ⟨cell, _, hprint⟩
  · simp only [CellKey.ofReference, hspells.split?] at hread
    rcases bind_eq_error (map_eq_error hread) with hdigits | ⟨row, _, hpure⟩
    · exact readDigits_fault hdigits
    · cases hpure
  · exact print_fault (map_eq_error hprint)

theorem shiftRuns_fault {runs : List Text} (hruns : Homogeneous runs)
    (h : shiftRuns rows cols runs = .error fault) : fault = .numeralTooLong := by
  induction runs using shiftRuns.induct with
  | case1 => simp [shiftRuns] at h
  | case2 run => simp [shiftRuns] at h
  | case3 run next rest hboth ih =>
    simp only [shiftRuns, if_pos hboth] at h
    rcases bind_eq_error h with href | ⟨shifted, _, htail⟩
    · exact shiftReference_fault (hruns.spells hboth) href
    · rcases bind_eq_error htail with htail | ⟨tail, _, hpure⟩
      · exact ih hruns.tail.tail htail
      · cases hpure
  | case4 run next rest hnot ih =>
    simp only [shiftRuns, if_neg hnot] at h
    rcases bind_eq_error h with htail | ⟨tail, _, hpure⟩
    · exact ih hruns.tail htail
    · cases hpure

theorem shift_fault (h : shift t rows cols = .error fault) : fault = .numeralTooLong :=
  shiftRuns_fault (homogeneous_runs t) h

end RefShift

end FormulaGrid
