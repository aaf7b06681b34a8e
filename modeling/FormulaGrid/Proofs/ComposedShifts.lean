import FormulaGrid.Proofs.MovedReferences
import FormulaGrid.Sheet

/-!
# Composed shifts

A moved text has the moved references and no others, since a moved reference still begins with a letter and
ends with a digit. Moving it again is therefore moving the text once, by the sum of both distances, wherever
the second move leads; and moving it back only leaves the rows spelled in the shortest way.
-/
namespace FormulaGrid

namespace RefShift
open Digits Reference IntegerText

variable {α : Type} {t run rest label digits : Text} {rows cols : Int} {k : Kind}

theorem head_dropWhile_kind (k : Kind) (t : Text) :
    ∀ c ∈ (t.dropWhile (kind · = k)).head?, kind c ≠ k := by
  intro c hc
  have hnot := List.head?_dropWhile_not (fun d => decide (kind d = k)) t
  rw [hc] at hnot
  simpa using hnot

theorem kind_of_mem_takeWhile {c : Char} (h : c ∈ t.takeWhile (kind · = k)) : kind c = k := by
  simpa using List.mem_takeWhile_imp h

/-- A text is empty, or begins with a reference that no digit follows, or begins with a run that is part
of no reference. -/
theorem reference_induction {motive : Text → Prop} (nil : motive [])
    (reference : ∀ label digits rest, Spells label digits → (∀ c ∈ rest.head?, kind c ≠ .digit) →
      motive rest → motive (label ++ (digits ++ rest)))
    (plain : ∀ k run rest, run ≠ [] → (∀ c ∈ run, kind c = k) →
      (∀ c ∈ rest.head?, kind c ≠ k ∧ ¬(k = .letter ∧ kind c = .digit)) →
      motive rest → motive (run ++ rest)) (t : Text) : motive t := by
  induction hn : t.length using Nat.strongRecOn generalizing t with
  | ind n ih =>
    cases t with
    | nil => exact nil
    | cons c t =>
      generalize hrun : (c :: t).takeWhile (kind · = kind c) = run
      generalize hrest : (c :: t).dropWhile (kind · = kind c) = rest
      have ht : c :: t = run ++ rest := by rw [← hrun, ← hrest, List.takeWhile_append_dropWhile]
      have hne : run ≠ [] := by simp [← hrun]
      have hkind : ∀ d ∈ run, kind d = kind c := by
        rw [← hrun]
        exact fun d => kind_of_mem_takeWhile
      have hhead : ∀ d ∈ rest.head?, kind d ≠ kind c := by
        rw [← hrest]
        exact head_dropWhile_kind (kind c) (c :: t)
      have hlength : run.length + rest.length = n := by rw [← hn, ht, List.length_append]
      have hpos := List.length_pos_of_ne_nil hne
      rw [ht]
      by_cases hboth : kind c = .letter ∧ ∃ d ∈ rest.head?, kind d = .digit
      · obtain ⟨hletter, d, hd, hdigit⟩ := hboth
        generalize hdigits : rest.takeWhile (kind · = .digit) = digits
        generalize hafter : rest.dropWhile (kind · = .digit) = after
        have hsplit : rest = digits ++ after := by
          rw [← hdigits, ← hafter, List.takeWhile_append_dropWhile]
        have hspells : Spells run digits := by
          refine ⟨hne, fun e he => kind_eq_letter.mp ((hkind e he).trans hletter), ?_, ?_⟩
          · obtain ⟨rest, rfl⟩ := List.head?_eq_some_iff.mp hd
            simp [← hdigits, hdigit]
          · rw [← hdigits]
            exact fun e he => kind_eq_digit (kind_of_mem_takeWhile he)
        have hend : ∀ e ∈ after.head?, kind e ≠ .digit := by
          rw [← hafter]
          exact head_dropWhile_kind .digit rest
        rw [hsplit, List.length_append] at hlength
        rw [hsplit]
        exact reference run digits after hspells hend (ih after.length (by omega) after rfl)
      · apply plain (kind c) run rest hne hkind
        · exact fun d hd => ⟨hhead d hd, fun h => hboth ⟨h.1, d, hd, h.2⟩⟩
        · exact ih rest.length (by omega) rest rfl

section Gather

variable (plain : Char → List α) (reference : Text → Text → List α)

theorem gather_reference_append (h : Spells label digits) (hrest : ∀ c ∈ rest.head?, kind c ≠ .digit) :
    gather plain reference (label ++ (digits ++ rest)) =
      reference label digits ++ gather plain reference rest := by
  have hletters : ∀ c ∈ label, kind c = .letter := fun c hc => kind_eq_letter.mpr (h.letters c hc)
  have hdigits : ∀ c ∈ digits, kind c = .digit := fun c hc => kind_of_isDigit (h.digits c hc)
  have hboth : runKind label = .letter ∧ runKind digits = .digit :=
    ⟨runKind_of_forall h.label_ne_nil hletters, runKind_of_forall h.digits_ne_nil hdigits⟩
  have hmeet : ∀ c ∈ (digits ++ rest).head?, kind c ≠ .letter := by
    intro c hc
    rw [List.head?_append_of_ne_nil _ h.digits_ne_nil] at hc
    rw [hdigits c (List.mem_of_mem_head? hc)]
    decide
  rw [gather, runs_append h.label_ne_nil hletters hmeet, runs_append h.digits_ne_nil hdigits hrest,
    gatherRuns, if_pos hboth]
  rfl

theorem gather_run_append (hne : run ≠ []) (hk : ∀ c ∈ run, kind c = k)
    (hrest : ∀ c ∈ rest.head?, kind c ≠ k ∧ ¬(k = .letter ∧ kind c = .digit)) :
    gather plain reference (run ++ rest) = run.flatMap plain ++ gather plain reference rest := by
  rw [gather, runs_append hne hk fun c hc => (hrest c hc).1]
  cases rest with
  | nil => simp [runs, gather, gatherRuns]
  | cons c rest =>
    obtain ⟨next, others, hruns⟩ := exists_runs_cons c rest
    have hnot : ¬(runKind run = .letter ∧ runKind (c :: next) = .digit) := by
      rw [runKind_of_forall hne hk]
      exact (hrest c rfl).2
    rw [gather, hruns, gatherRuns, if_neg hnot]

variable {plain reference}

theorem gather_congr {reference' : Text → Text → List α}
    (h : ∀ label digits, Spells label digits → reference label digits = reference' label digits)
    (t : Text) : gather plain reference t = gather plain reference' t := by
  induction t using reference_induction with
  | nil => rfl
  | reference label digits rest hspells hrest ih =>
    rw [gather_reference_append _ _ hspells hrest, gather_reference_append _ _ hspells hrest,
      h label digits hspells, ih]
  | plain k run rest hne hk hrest ih =>
    rw [gather_run_append _ _ hne hk hrest, gather_run_append _ _ hne hk hrest, ih]

theorem map_gather {β : Type} (f : α → β) (t : Text) :
    (gather plain reference t).map f =
      gather (fun c => (plain c).map f) (fun label digits => (reference label digits).map f) t := by
  induction t using reference_induction with
  | nil => rfl
  | reference label digits rest hspells hrest ih =>
    rw [gather_reference_append _ _ hspells hrest, gather_reference_append _ _ hspells hrest,
      List.map_append, ih]
  | plain k run rest hne hk hrest ih =>
    rw [gather_run_append _ _ hne hk hrest, gather_run_append _ _ hne hk hrest, List.map_append,
      List.map_flatMap, ih]

end Gather

theorem matched_reference_append (h : Spells label digits)
    (hrest : ∀ c ∈ rest.head?, kind c ≠ .digit) :
    matched (label ++ (digits ++ rest)) = (label, digits) :: matched rest :=
  gather_reference_append _ _ h hrest

theorem moved_reference_append (h : Spells label digits)
    (hrest : ∀ c ∈ rest.head?, kind c ≠ .digit) :
    moved rows cols (label ++ (digits ++ rest)) =
      movedReference rows cols label digits ++ moved rows cols rest :=
  gather_reference_append _ _ h hrest

theorem matched_run_append (hne : run ≠ []) (hk : ∀ c ∈ run, kind c = k)
    (hrest : ∀ c ∈ rest.head?, kind c ≠ k ∧ ¬(k = .letter ∧ kind c = .digit)) :
    matched (run ++ rest) = matched rest :=
  (gather_run_append _ _ hne hk hrest).trans (by simp [matched, matchedRuns, gather])

theorem moved_run_append (hne : run ≠ []) (hk : ∀ c ∈ run, kind c = k)
    (hrest : ∀ c ∈ rest.head?, kind c ≠ k ∧ ¬(k = .letter ∧ kind c = .digit)) :
    moved rows cols (run ++ rest) = run ++ moved rows cols rest :=
  (gather_run_append _ _ hne hk hrest).trans (by simp [moved, movedRuns, gather])

theorem Movable.spells (h : Movable rows cols label digits) :
    Spells (columnLabel (columnIndex label + cols)) (written (digitsValue digits + rows)) :=
  CellKey.spells_written h.row h.col

/-- A moved text begins with a character of the same kind as before. -/
theorem exists_kind_eq_of_moved (hm : AllMovable rows cols (matched t)) :
    ∀ c ∈ (moved rows cols t).head?, ∃ d ∈ t.head?, kind c = kind d := by
  induction t using reference_induction with
  | nil => simp [moved, movedRuns, runs, gatherRuns]
  | reference label digits rest hspells hrest _ =>
    rw [matched_reference_append hspells hrest] at hm
    have hmoved := (hm label digits (by simp)).spells
    rw [moved_reference_append hspells hrest, movedReference, List.append_assoc,
      List.head?_append_of_ne_nil _ hmoved.label_ne_nil,
      List.head?_append_of_ne_nil _ hspells.label_ne_nil]
    intro c hc
    obtain ⟨d, label, rfl⟩ := List.exists_cons_of_ne_nil hspells.label_ne_nil
    refine ⟨d, rfl, ?_⟩
    rw [kind_eq_letter.mpr (hmoved.letters c (List.mem_of_mem_head? hc)),
      kind_eq_letter.mpr (hspells.letters d (by simp))]
  | plain k run rest hne hk hrest _ =>
    rw [moved_run_append hne hk hrest, List.head?_append_of_ne_nil _ hne,
      List.head?_append_of_ne_nil _ hne]
    exact fun c hc => ⟨c, hc, rfl⟩

/-- What is gathered from a moved text is what is gathered from the references where they are now. -/
theorem gather_moved {plain : Char → List α} {reference reference' : Text → Text → List α}
    (hm : AllMovable rows cols (matched t))
    (h : ∀ label digits, Movable rows cols label digits →
      reference (columnLabel (columnIndex label + cols)) (written (digitsValue digits + rows)) =
        reference' label digits) :
    gather plain reference (moved rows cols t) = gather plain reference' t := by
  induction t using reference_induction with
  | nil => rfl
  | reference label digits rest hspells hrest ih =>
    rw [matched_reference_append hspells hrest] at hm
    have hmovable : Movable rows cols label digits := hm label digits (by simp)
    have hend : ∀ c ∈ (moved rows cols rest).head?, kind c ≠ .digit := by
      intro c hc
      obtain ⟨d, hd, hkind⟩ := exists_kind_eq_of_moved hm.tail c hc
      exact hkind ▸ hrest d hd
    rw [moved_reference_append hspells hrest, movedReference, List.append_assoc,
      gather_reference_append _ _ hmovable.spells hend, gather_reference_append _ _ hspells hrest,
      h label digits hmovable, ih hm.tail]
  | plain k run rest hne hk hrest ih =>
    rw [matched_run_append hne hk hrest] at hm
    have hend : ∀ c ∈ (moved rows cols rest).head?, kind c ≠ k ∧ ¬(k = .letter ∧ kind c = .digit) := by
      intro c hc
      obtain ⟨d, hd, hkind⟩ := exists_kind_eq_of_moved hm c hc
      exact hkind ▸ hrest d hd
    rw [moved_run_append hne hk hrest, gather_run_append _ _ hne hk hend,
      gather_run_append _ _ hne hk hrest, ih hm]

section Twice

variable {rows' cols' : Int} (h : Movable rows cols label digits)
include h

theorem Movable.columnIndex_moved :
    columnIndex (columnLabel (columnIndex label + cols)) = columnIndex label + cols :=
  columnIndex_columnLabel h.col

theorem Movable.digitsValue_moved :
    (digitsValue (written (digitsValue digits + rows)) : Int) = digitsValue digits + rows :=
  digitsValue_written h.row

theorem Movable.movedReference_moved :
    movedReference rows' cols' (columnLabel (columnIndex label + cols))
        (written (digitsValue digits + rows)) =
      movedReference (rows + rows') (cols + cols') label digits := by
  rw [movedReference, h.columnIndex_moved, h.digitsValue_moved, Int.add_assoc, Int.add_assoc]
  rfl

/-- A reference that has been moved can be printed at a distance exactly when it could from the start. -/
theorem Movable.fits_moved :
    Fits rows' (written (digitsValue digits + rows)) ↔ Fits (rows + rows') digits := by
  have hsum := h.digitsValue_moved
  constructor
  · rintro ⟨_, hmoved⟩
    rw [hsum, Int.add_assoc] at hmoved
    exact ⟨h.short, hmoved⟩
  · rintro ⟨_, hmoved⟩
    refine ⟨?_, by rwa [hsum, Int.add_assoc]⟩
    rw [written_of_nonneg h.row]
    exact h.shortMoved

theorem Movable.movable_moved (h' : Movable (rows + rows') (cols + cols') label digits) :
    Movable rows' cols' (columnLabel (columnIndex label + cols))
      (written (digitsValue digits + rows)) where
  toFits := h.fits_moved.mpr h'.toFits
  row := by rw [h.digitsValue_moved, Int.add_assoc]; exact h'.row
  col := by rw [h.columnIndex_moved, Int.add_assoc]; exact h'.col

end Twice

theorem moved_moved (hm : AllMovable rows cols (matched t)) (rows' cols' : Int) :
    moved rows' cols' (moved rows cols t) = moved (rows + rows') (cols + cols') t :=
  gather_moved hm fun _ _ h => h.movedReference_moved

theorem matched_moved (hm : AllMovable rows cols (matched t)) :
    matched (moved rows cols t) = (matched t).map fun reference =>
      (columnLabel (columnIndex reference.1 + cols), written (digitsValue reference.2 + rows)) := by
  have hgather : matched (moved rows cols t) = gather (fun _ => []) (fun label digits =>
      [(columnLabel (columnIndex label + cols), written (digitsValue digits + rows))]) t :=
    gather_moved hm fun _ _ _ => rfl
  have hmatched : matched t = gather (fun _ => []) (fun label digits => [(label, digits)]) t := rfl
  rw [hgather, hmatched, map_gather]
  rfl

theorem fits_moved_iff (hm : AllMovable rows cols (matched t)) {rows' : Int} :
    (∀ reference ∈ matched (moved rows cols t), Fits rows' reference.2) ↔
      ∀ reference ∈ matched t, Fits (rows + rows') reference.2 := by
  rw [matched_moved hm, List.forall_mem_map]
  exact forall₂_congr fun reference hmem => (hm reference.1 reference.2 hmem).fits_moved

/-- The second of two shifts does what one shift by both distances does, also when that fails. -/
theorem shift_moved (hm : AllMovable rows cols (matched t)) (rows' cols' : Int) :
    shift (moved rows cols t) rows' cols' = shift t (rows + rows') (cols + cols') := by
  by_cases hfits : ∀ reference ∈ matched t, Fits (rows + rows') reference.2
  · rw [shift_of_fits hfits, shift_of_fits ((fits_moved_iff hm).mpr hfits), moved_moved hm]
  · have hmoved := mt (fits_moved_iff hm).mp hfits
    push Not at hfits hmoved
    rw [shift_error_iff.mpr hfits, shift_error_iff.mpr hmoved]

theorem allMovable_moved {rows' cols' : Int} (hm : AllMovable rows cols (matched t))
    (h : AllMovable (rows + rows') (cols + cols') (matched t)) :
    AllMovable rows' cols' (matched (moved rows cols t)) := by
  intro label digits hmem
  rw [matched_moved hm] at hmem
  obtain ⟨⟨label, digits⟩, hsource, heq⟩ := List.mem_map.mp hmem
  obtain ⟨rfl, rfl⟩ := Prod.mk.inj heq
  exact (hm label digits hsource).movable_moved (h label digits hsource)

/-- The text with the row of every matched reference spelled in the shortest way. -/
def respelled (t : Text) : Text :=
  gather (fun c => [c]) (fun label digits => label ++ Nat.toDigits 10 (digitsValue digits)) t

theorem moved_zero (t : Text) : moved 0 0 t = respelled t := by
  apply gather_congr
  intro label digits h
  rw [movedReference, Int.add_zero, Int.add_zero, columnLabel_columnIndex h.letters,
    written_of_nonneg (Int.natCast_nonneg _), Int.natAbs_natCast]

/-- A row that can be read can be printed again. -/
theorem fits_zero (h : digits.length ≤ digitLimit) : Fits 0 digits := by
  refine ⟨h, ?_⟩
  rw [Nat.length_toDigits_le_iff (by decide) (by decide), Int.add_zero, Int.natAbs_natCast]
  exact (digitsValue_lt_pow digits).trans_le (Nat.pow_le_pow_right (by decide) h)

theorem exists_spells_of_mem_matched {reference : Text × Text} (h : reference ∈ matched t) :
    Spells reference.1 reference.2 := by
  induction t using reference_induction with
  | nil => cases h
  | reference label digits rest hspells hrest ih =>
    rw [matched_reference_append hspells hrest] at h
    rcases List.mem_cons.mp h with rfl | h
    · exact hspells
    · exact ih h
  | plain k run rest hne hk hrest ih =>
    rw [matched_run_append hne hk hrest] at h
    exact ih h

theorem allMovable_zero (h : ∀ reference ∈ matched t, reference.2.length ≤ digitLimit) :
    AllMovable 0 0 (matched t) := by
  intro label digits hmem
  have hspells := exists_spells_of_mem_matched hmem
  refine ⟨fits_zero (h (label, digits) hmem), by omega, ?_⟩
  rw [Int.add_zero]
  exact columnIndex_nonneg hspells.label_ne_nil hspells.letters

end RefShift

namespace Sheet
open RefShift IntegerText

variable {source key : CellKey} {text : Text}

/-- What a text comes to when it is filled from each cell into the next one. -/
def filledAlong (source : CellKey) : List CellKey → Text → Except Fault Text
  | [], text => .ok text
  | key :: keys, text => do
    let filled ← filledText source key text
    filledAlong key keys filled

theorem isFormula_moved {rows cols : Int} (h : text.isFormula) : (moved rows cols text).isFormula := by
  unfold Text.isFormula at h
  split at h
  · rw [moved_cons (by decide)]
    rfl
  · cases h

theorem filledText_of_not_isFormula (h : ¬text.isFormula) : filledText source key text = .ok text := by
  rw [filledText, if_neg h]

/-- However a text gets from the source to its last cell, it comes to the same as at once, as long as no
reference of it leaves the grid on the way. -/
theorem filledAlong_eq {keys : List CellKey} (target : CellKey)
    (h : text.isFormula → ∀ key ∈ keys,
      AllMovable (key.row - source.row) (key.col - source.col) (matched text)) :
    filledAlong source (keys ++ [target]) text = filledText source target text := by
  induction keys generalizing source text with
  | nil =>
    simp only [List.nil_append, filledAlong]
    exact bind_pure _
  | cons key keys ih =>
    by_cases hformula : text.isFormula
    · obtain ⟨hkey, hkeys⟩ := List.forall_mem_cons.mp (h hformula)
      have hdistance (a b c : Int) : b - a + (c - b) = c - a := by omega
      have hfilled : filledText source key text =
          .ok (moved (key.row - source.row) (key.col - source.col) text) := by
        rw [filledText, if_pos hformula, shift_eq_moved hkey]
      have hlater : ∀ later ∈ keys, AllMovable (later.row - key.row) (later.col - key.col)
          (matched (moved (key.row - source.row) (key.col - source.col) text)) := by
        intro later hmem
        apply allMovable_moved hkey
        rw [hdistance, hdistance]
        exact hkeys later hmem
      rw [List.cons_append, filledAlong, hfilled]
      refine (ih fun _ => hlater).trans ?_
      rw [filledText, if_pos (isFormula_moved hformula), shift_moved hkey, hdistance, hdistance,
        filledText, if_pos hformula]
    · rw [List.cons_append, filledAlong, filledText_of_not_isFormula hformula]
      refine (ih fun hnot => absurd hnot hformula).trans ?_
      rw [filledText_of_not_isFormula hformula, filledText_of_not_isFormula hformula]

/-- Shifts compose. A text none of whose references leaves the grid can be shifted on from there, and
comes to the same as at once, or fails alike, wherever the second shift leads. Shifting it back leaves what a
shift by nothing does: the rows of the references are spelled in the shortest way, and that is final. So a
text that is filled in several drags is the one filled in a single drag. -/
theorem shifts_compose (t : Text) :
    (∀ rows cols, AllMovable rows cols (matched t) → ∃ shifted, shift t rows cols = .ok shifted ∧
      (∀ rows' cols', shift shifted rows' cols' = shift t (rows + rows') (cols + cols')) ∧
      shift shifted (-rows) (-cols) = shift t 0 0) ∧
    (∀ rows cols, (∀ reference ∈ matched t, Fits rows reference.2) →
      shift t rows cols = .ok (moved rows cols t)) ∧
    ((∀ reference ∈ matched t, reference.2.length ≤ digitLimit) →
      shift t 0 0 = .ok (respelled t) ∧ shift (respelled t) 0 0 = .ok (respelled t)) ∧
    ∀ (source target : CellKey) (keys : List CellKey),
      (t.isFormula → ∀ key ∈ keys,
        AllMovable (key.row - source.row) (key.col - source.col) (matched t)) →
      filledAlong source (keys ++ [target]) t = filledText source target t := by
  refine ⟨fun rows cols hm => ⟨moved rows cols t, shift_eq_moved hm, shift_moved hm, ?_⟩,
    fun rows cols => shift_of_fits, fun hshort => ?_, fun source target keys => filledAlong_eq target⟩
  · rw [shift_moved hm, Int.add_right_neg, Int.add_right_neg]
  · have hm := allMovable_zero hshort
    have hzero : shift t 0 0 = .ok (respelled t) := by rw [shift_eq_moved hm, moved_zero]
    refine ⟨hzero, ?_⟩
    rw [← moved_zero, shift_moved hm, Int.add_zero, hzero, moved_zero]

theorem shifts_compose_respelled :
    let t := "=Z09+A7B1".toList
    AllMovable 1 1 (matched t) ∧ (∃ shifted, shift t 1 1 = .ok shifted ∧
      shift shifted (-1) (-1) = .ok "=Z9+A7B1".toList ∧
      shift shifted (-12) (-2) = .ok "=Y-2+-4A-10".toList) ∧
    shift (respelled t) 0 0 = .ok "=Z9+A7B1".toList ∧
    filledAlong ⟨1, 0⟩ [⟨2, 1⟩, ⟨2, 0⟩] t = .ok "=Z10+A8B2".toList := by
  intro t
  have hmatched : matched t = [(['Z'], ['0', '9']), (['A'], ['7']), (['B'], ['1'])] := by decide
  have hm : AllMovable 1 1 (matched t) := by
    intro label digits hmem
    simp only [hmatched, List.mem_cons, Prod.mk.injEq, List.not_mem_nil, or_false] at hmem
    obtain ⟨rfl, rfl⟩ | ⟨rfl, rfl⟩ | ⟨rfl, rfl⟩ := hmem <;>
      exact ⟨⟨by decide, by decide⟩, by decide, by decide⟩
  have hshort : ∀ reference ∈ matched t, reference.2.length ≤ digitLimit := by
    rw [hmatched]
    decide
  obtain ⟨hcompose, -, hzero, hdrags⟩ := shifts_compose t
  obtain ⟨shifted, hshift, hagain, hback⟩ := hcompose 1 1 hm
  have hrespelled : respelled t = "=Z9+A7B1".toList := by decide +kernel
  refine ⟨hm, ⟨shifted, hshift, ?_, ?_⟩, ?_, ?_⟩
  · rw [hback, (hzero hshort).1, hrespelled]
  · rw [hagain]
    decide +kernel
  · rw [(hzero hshort).2, hrespelled]
  · have hdrag := hdrags ⟨1, 0⟩ ⟨2, 0⟩ [⟨2, 1⟩] fun _ => List.forall_mem_singleton.mpr hm
    refine hdrag.trans ?_
    decide +kernel

end Sheet

end FormulaGrid
