import FormulaGrid.Proofs.Invalidation
import FormulaGrid.Proofs.MovedFormulas
import FormulaGrid.Proofs.Moves
import Mathlib.Algebra.Group.Nat.Defs

/-!
# Torn fills

A fill outside the columns changes nothing. A fill that stops at a row too long has written the cells
before the one whose text could not be made, and has not dropped a result nor queued a refresh.
-/
namespace FormulaGrid

namespace Sheet
open RefShift

variable {s : Sheet} {source target key k : CellKey} {text : Text} {keys : List CellKey}

/-- The cells of a fill that come before the first one whose text cannot be made. -/
def filledFirst (source : CellKey) (text : Text) (keys : List CellKey) : List CellKey :=
  keys.takeWhile fun key => (filledText source key text).isOk

theorem filledText_error_iff : filledText source key text = .error .numeralTooLong ↔
    text.isFormula ∧ ∃ reference ∈ matched text, ¬Fits (key.row - source.row) reference.2 := by
  unfold filledText
  split
  · simp [*, shift_error_iff]
  · simp [*]

theorem exists_filledText_error_iff :
    (∃ key ∈ keys, filledText source key text = .error .numeralTooLong) ↔
      text.isFormula ∧ ∃ key ∈ keys, ∃ reference ∈ matched text,
        ¬Fits (key.row - source.row) reference.2 := by
  simp only [filledText_error_iff]
  constructor
  · rintro ⟨key, hkey, hformula, hfits⟩
    exact ⟨hformula, key, hkey, hfits⟩
  · rintro ⟨hformula, key, hkey, hfits⟩
    exact ⟨key, hkey, hformula, hfits⟩

theorem mem_filledFirst_cons {filled : Text} (h : filledText source key text = .ok filled) :
    k ∈ filledFirst source text (key :: keys) ↔ k = key ∨ k ∈ filledFirst source text keys := by
  simp [filledFirst, h, Except.isOk, Except.toBool]

theorem writeAll_raw (source : CellKey) (text : Text) (keys : List CellKey) (s : Sheet) :
    (writeAll source text s keys).2.raw[k]? = if k ∈ filledFirst source text keys then
      (filledText source k text).toOption else s.raw[k]? := by
  induction keys generalizing s with
  | nil => simp [writeAll, filledFirst]
  | cons key keys ih =>
    simp only [writeAll]
    cases hfilled : filledText source key text with
    | error fault => simp [filledFirst, hfilled, Except.isOk, Except.toBool]
    | ok filled =>
      simp only [ih, mem_filledFirst_cons hfilled]
      by_cases hk : k = key
      · simp [hk, hfilled, Except.toOption]
      · simp [hk, Std.ExtTreeMap.getElem?_insert, Ne.symm hk]

theorem writeAll_error_iff : (writeAll source text s keys).1 = .error .numeralTooLong ↔
    ∃ key ∈ keys, filledText source key text = .error .numeralTooLong := by
  induction keys generalizing s with
  | nil => simp [writeAll]
  | cons key keys ih =>
    simp only [writeAll, List.exists_mem_cons_iff]
    cases hfilled : filledText source key text with
    | error fault =>
      obtain rfl := filledText_fault hfilled
      simp
    | ok filled => simp [ih]

theorem fill_error_iff : (s.fill source target).1 = .error .numeralTooLong ↔
    s.hasColumn source.col ∧ s.hasColumn target.col ∧
      ∃ key ∈ filled source target,
        filledText source key (s.rawText source) = .error .numeralTooLong := by
  rw [← writeAll_error_iff (s := s)]
  by_cases hsource : s.hasColumn source.col
  case neg => simp [fill, hsource]
  by_cases htarget : s.hasColumn target.col
  case neg => simp [fill, hsource, htarget]
  rw [fill_of_hasColumn hsource htarget]
  rcases writeAll_outcome source (s.rawText source) (filled source target) s with hall | hall
  · rw [fillCells_of_ok hall, hall]
    constructor
    · intro h
      cases verdict_fault (map_eq_error h)
    · rintro ⟨-, -, h⟩
      cases h
  · simp [fillCells_of_error hall, hall, hsource, htarget]

theorem fill_of_error (h : (s.fill source target).1 = .error .numeralTooLong) :
    (s.fill source target).2 =
      (writeAll source (s.rawText source) s (filled source target)).2 := by
  obtain ⟨hsource, htarget, htext⟩ := fill_error_iff.mp h
  rw [fill_of_hasColumn hsource htarget, fillCells_of_error (writeAll_error_iff.mpr htext)]

theorem fill_of_columnOutOfRange {col : Int}
    (h : (s.fill source target).1 = .error (.columnOutOfRange col)) : (s.fill source target).2 = s := by
  rcases s.fill_cases source target with ⟨other, -, -, hfill⟩ | ⟨s', -, hfill⟩ |
    ⟨keys, raw, -, -, -, hfill⟩
  · rw [hfill]
  · simp [hfill] at h
  · rw [hfill] at h
    cases verdict_fault (map_eq_error h)

end Sheet

namespace RefShift
open Digits IntegerText

theorem digitsValue_nines (n : Nat) : digitsValue (List.replicate n '9') + 1 = 10 ^ n := by
  induction n with
  | zero => rfl
  | succ n ih =>
    rw [List.replicate_succ', digitsValue_append_singleton, Nat.pow_succ, ← ih]
    have hnine : (digitValue? '9').getD 0 = 9 := by decide
    omega

/-- A row of nines, as many as can be printed, is the last that fits. -/
theorem fits_nines {rows : Int} (h : 0 ≤ rows) :
    Fits rows (List.replicate digitLimit '9') ↔ rows = 0 := by
  have hvalue := digitsValue_nines digitLimit
  have hlength := Nat.length_toDigits_le_iff (b := 10) (k := digitLimit)
    (n := (digitsValue (List.replicate digitLimit '9') + rows).natAbs) (by decide) (by decide)
  constructor
  · intro hfits
    have := hlength.mp hfits.shortMoved
    omega
  · rintro rfl
    refine ⟨by simp, hlength.mpr ?_⟩
    omega

end RefShift

namespace Session
open Sheet RefShift

variable {s : Session Sheet} {source target : CellKey}

theorem perform_fill_answer (s : Session Sheet) (source target : CellKey) :
    (s.perform (.fill source target)).1 = (s.store.fill source target).1.map .keys := by
  simp only [perform, answering, Session.fill, cellStore_fill]
  cases s.store.fill source target with
  | mk outcome store =>
    cases outcome with
    | error fault => rfl
    | ok keys => dsimp only; split <;> rfl

theorem perform_fill_error_iff {fault : Fault} :
    (s.perform (.fill source target)).1 = .error fault ↔
      (s.store.fill source target).1 = .error fault := by
  rw [perform_fill_answer]
  cases (s.store.fill source target).1 <;> simp [Except.map]

/-- A fault of a fill leaves all but the store alone. -/
theorem perform_fill_of_fault {fault : Fault} (h : (s.store.fill source target).1 = .error fault) :
    (s.perform (.fill source target)).2 =
      { s with store := (s.store.fill source target).2 } := by
  simp only [perform, answering, Session.fill, cellStore_fill]
  cases hstore : s.store.fill source target with
  | mk outcome store =>
    rw [hstore] at h
    obtain rfl : outcome = .error fault := h
    rfl

theorem perform_fill_store (h : (s.store.fill source target).1 = .error .numeralTooLong) :
    (s.perform (.fill source target)).2.store =
      (writeAll source (s.store.rawText source) s.store (filled source target)).2 := by
  rw [perform_fill_of_fault h, fill_of_error h]

section Torn

variable (h : (s.perform (.fill source target)).1 = .error .numeralTooLong)
include h

theorem torn_frame : (s.perform (.fill source target)).2 =
    { s with store := { s.store with raw := (s.perform (.fill source target)).2.store.raw } } := by
  have hfill := perform_fill_error_iff.mp h
  rw [perform_fill_store hfill, ← writeAll_frame, ← fill_of_error hfill]
  exact perform_fill_of_fault hfill

theorem torn_raw (key : CellKey) : (s.perform (.fill source target)).2.store.raw[key]? =
    if key ∈ filledFirst source (s.store.rawText source) (filled source target) then
      (filledText source key (s.store.rawText source)).toOption else s.store.raw[key]? := by
  rw [perform_fill_store (perform_fill_error_iff.mp h)]
  exact writeAll_raw source _ (filled source target) s.store

theorem torn_cached (key : CellKey) :
    (s.perform (.fill source target)).2.store.cached key = s.store.cached key := by
  have hframe := torn_frame h
  rw [hframe]
  rfl

theorem torn_rawText {key : CellKey} {text new : Text} (htext : s.store.rawText source = text)
    (hkey : key ∈ filledFirst source text (filled source target))
    (hnew : filledText source key text = .ok new) :
    (s.perform (.fill source target)).2.store.rawText key = new := by
  subst htext
  rw [rawText, torn_raw h, if_pos hkey, hnew]
  rfl

theorem torn_eq_iff : (s.perform (.fill source target)).2 = s ↔
    ∀ key ∈ filledFirst source (s.store.rawText source) (filled source target),
      s.store.raw[key]? = (filledText source key (s.store.rawText source)).toOption := by
  constructor
  · intro hsame key hkey
    have hraw := torn_raw h key
    rw [if_pos hkey, hsame] at hraw
    exact hraw
  · intro hsame
    have hraw : (s.perform (.fill source target)).2.store.raw = s.store.raw := by
      apply Std.ExtTreeMap.ext_getElem?
      intro key
      rw [torn_raw h]
      split
      · rename_i hkey
        exact (hsame key hkey).symm
      · rfl
    rw [torn_frame h, hraw]

end Torn

/-- A formula that refers to the last row that can be printed. -/
def lastRowFormula : Text := '=' :: (['A'] ++ List.replicate IntegerText.digitLimit '9')

theorem matched_lastRowFormula :
    matched lastRowFormula = [(['A'], List.replicate IntegerText.digitLimit '9')] := by
  rw [lastRowFormula, matched_cons (by decide)]
  exact gather_reference _ _ (spells_replicate (by decide) (by decide))

theorem allMovable_lastRowFormula : AllMovable 0 1 (matched lastRowFormula) := by
  intro label digits hmem
  rw [matched_lastRowFormula, List.mem_singleton] at hmem
  obtain ⟨rfl, rfl⟩ := Prod.mk.inj hmem
  exact ⟨(fits_nines (Int.le_refl 0)).mpr rfl, by omega, by decide⟩

/-- A formula that has been read, beside the cell that a fill will start from. -/
def besideMoves : List Move :=
  [.perform (.edit ⟨1, 2⟩ ['5']), .perform (.edit ⟨1, 1⟩ ['=', 'C', '1']),
    .perform (.read ⟨1, 1⟩)]

def beforeTear : Session Sheet :=
  ((start (Sheet.empty 3 true)).after besideMoves).move
    (.perform (.edit ⟨1, 0⟩ lastRowFormula)) |>.2

theorem beforeTear_rawText : beforeTear.store.rawText ⟨1, 0⟩ = lastRowFormula :=
  edit_rawText (s := ((start (Sheet.empty 3 true)).after besideMoves).store) (by decide +kernel) _

theorem beforeTear_beside : beforeTear.store.raw[(⟨1, 1⟩ : CellKey)]? = some ['=', 'C', '1'] ∧
    beforeTear.store.computed[(⟨1, 1⟩ : CellKey)]? = some ['5'] := by
  decide +kernel

theorem isFormula_lastRowFormula : lastRowFormula.isFormula := rfl

theorem filledText_beside : filledText ⟨1, 0⟩ ⟨1, 1⟩ lastRowFormula =
    .ok (moved 0 1 lastRowFormula) := by
  rw [filledText, if_pos isFormula_lastRowFormula]
  simp only [Int.sub_self, Int.sub_zero]
  exact shift_eq_moved allMovable_lastRowFormula

theorem moved_lastRowFormula_ne : moved 0 1 lastRowFormula ≠ ['=', 'C', '1'] := by
  have hmoved : moved 0 1 lastRowFormula =
      '=' :: movedReference 0 1 ['A'] (List.replicate IntegerText.digitLimit '9') := by
    rw [lastRowFormula, moved_cons (by decide)]
    exact congrArg _ (gather_reference _ _ (spells_replicate (by decide) (by decide)))
  have hindex : Reference.columnIndex ['A'] + 1 = 1 := by decide
  have hlabel : Reference.columnLabel 1 = ['B'] := by
    rw [Reference.columnLabel, show ((1 : Int) + 1).toNat = 1 + 1 by rfl, Reference.labelAt_succ]
    simp [Reference.labelAt]
    decide
  have hne (row : Text) : '=' :: (['B'] ++ row) ≠ ['=', 'C', '1'] := by simp
  rw [hmoved, movedReference, hindex, hlabel]
  exact hne _

theorem filledText_below : filledText ⟨1, 0⟩ ⟨2, 0⟩ lastRowFormula = .error .numeralTooLong := by
  have hfits : ¬Fits (2 - 1) (List.replicate IntegerText.digitLimit '9') := by
    rw [fits_nines (by decide)]
    decide
  rw [filledText_error_iff, matched_lastRowFormula]
  exact ⟨isFormula_lastRowFormula, _, List.mem_singleton_self _, hfits⟩

theorem filled_beforeTear : filled ⟨1, 0⟩ ⟨2, 1⟩ = [⟨1, 1⟩, ⟨2, 0⟩, ⟨2, 1⟩] := by
  decide

theorem mem_filledFirst_beside :
    (⟨1, 1⟩ : CellKey) ∈ filledFirst ⟨1, 0⟩ lastRowFormula (filled ⟨1, 0⟩ ⟨2, 1⟩) := by
  rw [filled_beforeTear, mem_filledFirst_cons filledText_beside]
  exact Or.inl rfl

theorem beforeTear_fill :
    (beforeTear.store.fill ⟨1, 0⟩ ⟨2, 1⟩).1 = .error .numeralTooLong := by
  rw [fill_error_iff, beforeTear_rawText, filled_beforeTear]
  exact ⟨by decide +kernel, by decide +kernel, ⟨2, 0⟩, by decide, filledText_below⟩

/-- A fill outside the columns changes nothing. One that stops at a text, because the row of a matched
reference is too long there, leaves the results, the graph, the queue and all else as they are, but the
cells before have their new texts; nothing at all is changed exactly when they had these already. -/
theorem refused_fill (s : Session Sheet) (source target : CellKey) :
    let text := s.store.rawText source
    let first := filledFirst source text (filled source target)
    let result := s.perform (.fill source target)
    (∀ col, result.1 = .error (.columnOutOfRange col) → result.2 = s) ∧
    (result.1 = .error .numeralTooLong ↔
      s.store.hasColumn source.col ∧ s.store.hasColumn target.col ∧ text.isFormula ∧
        ∃ key ∈ filled source target, ∃ reference ∈ matched text,
          ¬Fits (key.row - source.row) reference.2) ∧
    (result.1 = .error .numeralTooLong →
      result.2 = { s with store := { s.store with raw := result.2.store.raw } } ∧
      (∀ key, result.2.store.raw[key]? =
        if key ∈ first then (filledText source key text).toOption else s.store.raw[key]?) ∧
      (result.2 = s ↔
        ∀ key ∈ first, s.store.raw[key]? = (filledText source key text).toOption)) := by
  intro text first result
  refine ⟨fun col h => ?_, ?_, fun h => ⟨torn_frame h, torn_raw h, torn_eq_iff h⟩⟩
  · have hfill := perform_fill_error_iff.mp h
    rw [perform_fill_of_fault hfill, fill_of_columnOutOfRange hfill]
  · rw [perform_fill_error_iff, fill_error_iff, exists_filledText_error_iff]

theorem refused_fill_lastRow :
    let result := beforeTear.perform (.fill ⟨1, 0⟩ ⟨2, 1⟩)
    result.2.store.raw[(⟨1, 1⟩ : CellKey)]? = some (moved 0 1 lastRowFormula) ∧
      result.2 ≠ beforeTear := by
  intro result
  obtain ⟨-, -, htorn⟩ := refused_fill beforeTear ⟨1, 0⟩ ⟨2, 1⟩
  obtain ⟨-, hraw, hsame⟩ := htorn (perform_fill_error_iff.mpr beforeTear_fill)
  rw [beforeTear_rawText] at hraw hsame
  constructor
  · rw [hraw, if_pos mem_filledFirst_beside, filledText_beside]
    rfl
  · intro heq
    have hbeside := hsame.mp heq ⟨1, 1⟩ mem_filledFirst_beside
    rw [beforeTear_beside.1, filledText_beside] at hbeside
    exact moved_lastRowFormula_ne (Option.some.inj hbeside).symm

/-- The fill fails, but the cell beside has lost its text and still displays the result of it. -/
theorem torn_fill_overwrites :
    let result := beforeTear.perform (.fill ⟨1, 0⟩ ⟨2, 1⟩)
    result.1 = .error .numeralTooLong ∧
      beforeTear.store.rawText ⟨1, 1⟩ = ['=', 'C', '1'] ∧
      result.2.store.rawText ⟨1, 1⟩ ≠ ['=', 'C', '1'] ∧
      result.2.store.cached ⟨1, 1⟩ = some ['5'] := by
  intro result
  have hfault : result.1 = .error .numeralTooLong := perform_fill_error_iff.mpr beforeTear_fill
  have hbeside : result.2.store.rawText ⟨1, 1⟩ = moved 0 1 lastRowFormula :=
    torn_rawText hfault beforeTear_rawText mem_filledFirst_beside filledText_beside
  have hcached : result.2.store.cached ⟨1, 1⟩ = beforeTear.store.cached ⟨1, 1⟩ :=
    torn_cached hfault ⟨1, 1⟩
  refine ⟨hfault, ?_, ?_, hcached.trans beforeTear_beside.2⟩
  · rw [rawText, beforeTear_beside.1, Option.getD_some]
  · rw [hbeside]
    exact moved_lastRowFormula_ne

end Session

end FormulaGrid
