import FormulaGrid.Proofs.Invalidation
import FormulaGrid.Proofs.MovedFormulas
import FormulaGrid.Proofs.Moves
import FormulaGrid.Proofs.OverlongOperands

/-!
# Unreadable cells

A cell cannot be read when it has no result and a number stops the evaluation of its formula. Reading
other cells makes no difference to that, so a table fails exactly when it has such a cell, and a refresh
when one is queued.
-/
namespace FormulaGrid

namespace Sheet
open Formula

variable {s : Sheet} {key k : CellKey} {fault : Fault}

/-- A cell without a result whose formula has an overlong operand and fails in no displayed way. -/
def Unreadable (s : Sheet) (key : CellKey) : Prop :=
  (s.cached key = none ∨ s.cached key = some []) ∧
    ∃ formula, parse (s.rawText key) = some formula ∧
      (∃ token ∈ formula.operands, Overlong token) ∧
        ∀ e, formula.evaluate s.rawText ≠ .error (.formula e)

theorem evaluateCell_error_iff : (s.evaluateCell key).1 = .error fault ↔
    fault = .numeralTooLong ∧ ∃ formula, parse (s.rawText key) = some formula ∧
      formula.evaluate s.rawText = .error .numeralTooLong := by
  unfold evaluateCell
  cases hp : parse (s.rawText key) with
  | none => simp
  | some formula =>
    cases he : formula.evaluate s.rawText with
    | ok e => simp [he]
    | error other =>
      rcases evaluate_fault he with ⟨e, rfl⟩ | rfl
      · simp [he]
      · simp [he, eq_comm]

theorem read_error_iff :
    (s.read key).1 = .error fault ↔ fault = .numeralTooLong ∧ s.Unreadable key := by
  have hcell : (s.evaluateCell key).1 = .error fault ↔ fault = .numeralTooLong ∧
      ∃ formula, parse (s.rawText key) = some formula ∧
        (∃ token ∈ formula.operands, Overlong token) ∧
          ∀ e, formula.evaluate s.rawText ≠ .error (.formula e) := by
    simp only [evaluateCell_error_iff, evaluate_eq_numeralTooLong_iff]
  unfold read Unreadable
  split
  · rename_i hcached
    simp [hcell, hcached]
  · rename_i hcached
    simp [hcell, hcached]
  · rename_i text hnonempty hcached
    have hne : text ≠ [] := hnonempty
    simp [hcached, hne]

theorem not_unreadable_of_ok {formula : Formula} {e : Evaluated}
    (hp : parse (s.rawText key) = some formula) (he : formula.evaluate s.rawText = .ok e) :
    ¬s.Unreadable key := by
  rintro ⟨-, other, hother, hlong⟩
  obtain rfl := Option.some.inj (hp.symm.trans hother)
  rw [← evaluate_eq_numeralTooLong_iff, he] at hlong
  cases hlong

theorem read_of_unreadable (h : s.Unreadable key) : s.read key = (.error .numeralTooLong, s) := by
  have herror : (s.read key).1 = .error .numeralTooLong := read_error_iff.mpr ⟨rfl, h⟩
  rcases s.read_cases key with hsame | ⟨formula, e, hp, he, -⟩
  · exact Prod.ext herror hsame
  · exact absurd h (not_unreadable_of_ok hp he)

/-- Reading a cell makes no cell readable or unreadable. -/
theorem unreadable_read (k : CellKey) : (s.read k).2.Unreadable key ↔ s.Unreadable key := by
  rcases s.read_cases k with hsame | ⟨formula, e, hp, he, hmemoize⟩
  · rw [hsame]
  · rw [hmemoize]
    by_cases hkey : key = k
    · subst hkey
      exact iff_of_false (not_unreadable_of_ok (s := s.memoize key e) hp he)
        (not_unreadable_of_ok hp he)
    · have hcached : (s.memoize k e).cached key = s.cached key := by
        rw [cached, memoize_computed, if_neg hkey, cached]
      unfold Unreadable
      rw [hcached]
      rfl

/-- Any cell of the grid can be made unreadable, whatever the sheet holds. -/
theorem unreadable_edit {label digits : Text} (hcol : s.hasColumn key.col)
    (h : RefShift.Spells label digits) (hlong : IntegerText.digitLimit < digits.length) :
    (s.edit key ('=' :: (label ++ digits))).2.Unreadable key := by
  have hparse := parse_reference h
  have hsplit : Reference.split? (Text.trim (label ++ digits)) = some (label, digits) := by
    rw [h.trim, h.split?]
  have hevaluate (lookup : Lookup) :
      (Formula.value (label ++ digits)).evaluate lookup = .error .numeralTooLong := by
    have href : Reference.isReference (Text.trim (label ++ digits)) := by
      simp [Reference.isReference, hsplit]
    have hkey := CellKey.ofReference_overlong hsplit hlong
    simp [evaluate, Evaluation.reading, Evaluation.resolve_overlong [] href hkey, Except.map]
  refine ⟨Or.inl ?_, .value (label ++ digits), ?_, ⟨_, List.mem_singleton_self _, label, digits,
    hsplit, hlong⟩, fun e => ?_⟩
  · rw [edit_of_hasColumn hcol]
    simp [cached, drop_computed, stored_computed]
  · rw [edit_rawText hcol, hparse]
  · simp [hevaluate]

theorem readAll_error_iff (keys : List CellKey) :
    (CellStore.readAll s keys).1 = .error fault ↔
      fault = .numeralTooLong ∧ ∃ key ∈ keys, s.Unreadable key := by
  induction keys generalizing s with
  | nil => simp [CellStore.readAll]
  | cons key keys ih =>
    have hrest := ih (s := (s.read key).2)
    simp only [unreadable_read] at hrest
    unfold CellStore.readAll
    rw [cellStore_read]
    by_cases hkey : s.Unreadable key
    · rw [read_of_unreadable hkey]
      simp [hkey, eq_comm]
    · cases hr : s.read key with
      | mk outcome s' =>
        cases outcome with
        | error other => exact absurd (read_error_iff.mp (by rw [hr])).2 hkey
        | ok text =>
          rw [hr] at hrest
          simp only [List.exists_mem_cons_iff, hkey, false_or, ← hrest]
          split <;> simp_all

/-- Sheets with the same columns and the same unreadable cells. -/
structure SameUnreadable (s s' : Sheet) : Prop where
  columns : s'.columns = s.columns
  unreadable : ∀ key, s'.Unreadable key ↔ s.Unreadable key

theorem sameUnreadable_readAll (s : Sheet) (keys : List CellKey) :
    SameUnreadable s (CellStore.readAll s keys).2 := by
  have hread {s' : Sheet} (key : CellKey) (h : SameUnreadable s s') :
      SameUnreadable s (CellStore.read s' key).2 := by
    have hcolumns : (s'.read key).2.columns = s'.columns :=
      congrArg Prod.fst (s'.read_settings key)
    exact ⟨hcolumns.trans h.columns, fun k => (unreadable_read key).trans (h.unreadable k)⟩
  exact CellStore.readAll_invariant hread keys ⟨rfl, fun _ => Iff.rfl⟩

theorem renderRows_error_iff (rows : List Int) :
    (CellStore.renderRows s rows).1 = .error fault ↔ fault = .numeralTooLong ∧
      ∃ row ∈ rows, ∃ key ∈ CellStore.rowKeys s.columns row, s.Unreadable key := by
  induction rows generalizing s with
  | nil => simp [CellStore.renderRows]
  | cons row rows ih =>
    have hcolumns : CellStore.columns s = s.columns := rfl
    have hfirst : (CellStore.readAll s (CellStore.rowKeys s.columns row)).1 = .error fault ↔ _ :=
      readAll_error_iff _
    have hsame := sameUnreadable_readAll s (CellStore.rowKeys s.columns row)
    unfold CellStore.renderRows
    rw [hcolumns, List.exists_mem_cons_iff, and_or_left, ← hfirst]
    cases hr : CellStore.readAll s (CellStore.rowKeys s.columns row) with
    | mk outcome s' =>
      replace hsame : SameUnreadable s s' := by simpa [hr] using hsame
      cases outcome with
      | error other =>
        have hother : other = .numeralTooLong := (readAll_error_iff _).mp (by rw [hr]) |>.1
        simp only [hother, Except.error.injEq]
        exact ⟨Or.inl, fun h => h.elim id fun hlater => hlater.1.symm⟩
      | ok texts =>
        have hrest := ih (s := s')
        simp only [hsame.unreadable, hsame.columns] at hrest
        rw [← hrest]
        cases hlast : CellStore.renderRows s' rows with
        | mk outcome last => cases outcome <;> simp [hlast]

end Sheet

namespace Session

variable {s : Session Sheet} {top : Activation} {fault : Fault}

/-- The cells that a refresh still has to read. -/
def queued (s : Session Sheet) (top : Activation) : List CellKey := top.rest ++ s.queue.flatten

/-- No listener has a command left to give. -/
def Silent (s : Session Sheet) : Prop := ∀ name, s.scripts.takeCommand? name = none

/-- A step of a refresh without commands goes on with the same unreadable cells ahead, or ends with none
ahead, or fails with one. -/
theorem step_silent (hsilent : s.Silent) (hactive : s.active = [top]) :
    (∃ s' top', s.step = .running s' ∧ s'.Silent ∧ s'.active = [top'] ∧
      ((∃ key ∈ s'.queued top', s'.store.Unreadable key) ↔
        ∃ key ∈ s.queued top, s.store.Unreadable key)) ∨
    (∃ count s', s.step = .finished count s' ∧ s.queued top = []) ∨
    ∃ s', s.step = .failed .numeralTooLong s' ∧ ∃ key ∈ s.queued top, s.store.Unreadable key := by
  unfold step
  rw [hactive]
  split
  · rename_i heq
    cases heq
  rename_i first below heq
  obtain ⟨rfl, rfl⟩ := List.cons.inj heq
  split
  · rename_i name hspeaker
    left
    simp only [stepScript, hsilent name]
    exact ⟨_, _, rfl, hsilent, rfl, Iff.rfl⟩
  · rename_i notice calls hspeaker hcalls
    left
    exact ⟨_, _, rfl, hsilent, rfl, Iff.rfl⟩
  · rename_i key rest hspeaker hcalls hrest
    have hqueued : s.queued top = key :: (rest ++ s.queue.flatten) := by simp [queued, hrest]
    unfold stepCell
    rw [Sheet.cellStore_read, hqueued]
    by_cases hkey : s.store.Unreadable key
    · right; right
      rw [Sheet.read_of_unreadable hkey]
      exact ⟨_, rfl, key, by simp, hkey⟩
    · left
      have hsame (k : CellKey) : (s.store.read key).2.Unreadable k ↔ s.store.Unreadable k :=
        Sheet.unreadable_read key
      cases hr : s.store.read key with
      | mk outcome store =>
        cases outcome with
        | error other => exact absurd (Sheet.read_error_iff.mp (by rw [hr])).2 hkey
        | ok text =>
          rw [hr] at hsame
          refine ⟨_, _, rfl, hsilent, rfl, ?_⟩
          simp [queued, hsame, hkey]
  · rename_i hspeaker hcalls hrest
    unfold stepBatch
    cases hqueue : s.queue with
    | nil =>
      right; left
      exact ⟨_, _, rfl, by simp [queued, hrest, hqueue]⟩
    | cons batch queue =>
      left
      refine ⟨_, _, rfl, hsilent, rfl, ?_⟩
      simp [queued, hrest, hqueue]

theorem settle_error_iff (hsilent : s.Silent) (hactive : s.active = [top]) :
    s.settle.1 = .error fault ↔
      fault = .numeralTooLong ∧ ∃ key ∈ s.queued top, s.store.Unreadable key := by
  induction s using settle.induct generalizing top with
  | case1 s s' hstep ih =>
    obtain ⟨next, top', hnext, hsilent', hactive', hahead⟩ | ⟨count, next, hnext, -⟩ |
      ⟨next, hnext, -⟩ := step_silent hsilent hactive
    · obtain rfl := Outcome.running.inj (hstep.symm.trans hnext)
      rw [settle_of_running hstep, ih hsilent' hactive', hahead]
    · cases hstep.symm.trans hnext
    · cases hstep.symm.trans hnext
  | case2 s count s' hstep =>
    obtain ⟨next, top', hnext, -⟩ | ⟨other, next, hnext, hqueued⟩ | ⟨next, hnext, -⟩ :=
      step_silent hsilent hactive
    · cases hstep.symm.trans hnext
    · simp [settle_of_finished hstep, hqueued]
    · cases hstep.symm.trans hnext
  | case3 s other s' hstep =>
    obtain ⟨next, top', hnext, -⟩ | ⟨count, next, hnext, -⟩ | ⟨next, hnext, hqueued⟩ :=
      step_silent hsilent hactive
    · cases hstep.symm.trans hnext
    · cases hstep.symm.trans hnext
    · obtain ⟨rfl, -⟩ := Outcome.failed.inj (hstep.symm.trans hnext)
      simp only [settle_of_failed hstep, Except.error.injEq, hqueued, and_true, eq_comm]

/-- A reference with one row digit too many. -/
def overlongReference : Text := ['A'] ++ List.replicate (IntegerText.digitLimit + 1) '1'

/-- A formula that is filled down, so that the refresh of the cell below is queued. -/
def filledMoves : List Move :=
  [.perform (.edit ⟨1, 0⟩ ['=', '1']), .perform (.fill ⟨1, 0⟩ ⟨2, 0⟩)]

theorem answers_edit_read {sheet : Sheet} {key : CellKey} {t : Text}
    (hedit : (sheet.edit key t).1 = .ok ()) (h : (sheet.edit key t).2.Unreadable key) :
    (start sheet).answers [.perform (.edit key t), .perform (.read key)] =
      [.ok .done, .error .numeralTooLong] := by
  have hread := Sheet.read_of_unreadable h
  simp [answers, move, perform, within, answering, start, Sheet.cellStore_edit, Sheet.cellStore_read,
    hedit, hread, Except.map]

/-- A cell is readable unless it has no result and an overlong operand, and fails in no displayed way. A
table fails exactly when one of its cells is unreadable, and a refresh whose listeners give no commands
when one of the queued cells is; the fault is always the same. -/
theorem fails_iff_unreadable (s : Session Sheet) (fault : Fault) :
    (∀ key, (s.perform (.read key)).1 = .error fault ↔
      fault = .numeralTooLong ∧ s.store.Unreadable key) ∧
    (∀ key, s.store.Unreadable key → (s.perform (.read key)).2 = s) ∧
    (∀ rows, (s.perform (.render rows)).1 = .error fault ↔ fault = .numeralTooLong ∧
      ∃ row ∈ rows, ∃ key ∈ CellStore.rowKeys s.store.columns row, s.store.Unreadable key) ∧
    (s.active = [] → s.Silent → (s.refresh.1 = .error fault ↔
      fault = .numeralTooLong ∧ ∃ key ∈ s.queue.flatten, s.store.Unreadable key)) := by
  refine ⟨fun key => ?_, fun key h => ?_, fun rows => ?_, fun hactive hsilent => ?_⟩
  · simp only [perform, within, answering, Sheet.cellStore_read, ← Sheet.read_error_iff]
    cases (s.store.read key).1 <;> simp [Except.map]
  · simp [perform, within, answering, Sheet.cellStore_read, Sheet.read_of_unreadable h]
  · simp only [perform, within, answering, ← Sheet.renderRows_error_iff]
    cases (CellStore.renderRows s.store rows).1 <;> simp [Except.map]
  · have hfresh : (s.perform .refresh).2.active = [.fresh] := by simp [perform, hactive]
    have hsettle : (s.perform .refresh).2.settle.1 = .error fault ↔ _ :=
      settle_error_iff hsilent hfresh
    simpa [queued, Activation.fresh, perform, refresh] using hsettle

theorem fails_iff_unreadable_queued :
    let s := ((start (Sheet.empty 3 true)).after filledMoves).move
      (.perform (.edit ⟨2, 0⟩ ('=' :: overlongReference))) |>.2
    (s.perform (.read ⟨2, 0⟩)).1 = .error .numeralTooLong ∧
      (s.perform (.render [2])).1 = .error .numeralTooLong ∧
        s.refresh.1 = .error .numeralTooLong := by
  intro s
  have hunreadable : s.store.Unreadable ⟨2, 0⟩ :=
    Sheet.unreadable_edit (s := ((start (Sheet.empty 3 true)).after filledMoves).store)
      (by decide +kernel) (RefShift.spells_replicate (by decide) (by decide)) (by simp)
  have hqueue : s.queue.flatten = [⟨2, 0⟩] := by
    rfl
  have hall := s.fails_iff_unreadable .numeralTooLong
  refine ⟨(hall.1 _).mpr ⟨rfl, hunreadable⟩,
    (hall.2.2.1 _).mpr ⟨rfl, 2, by simp, ⟨2, 0⟩, ?_, hunreadable⟩,
    (hall.2.2.2 ?_ ?_).mpr ⟨rfl, ⟨2, 0⟩, by simp [hqueue], hunreadable⟩⟩
  · have hcolumns : s.store.columns = 3 := by rfl
    rw [hcolumns]
    decide
  · rfl
  · intro name
    rfl

/-- The text of the cell alone makes its reading fail. -/
theorem read_overlong_fails :
    (start (Sheet.empty 3 true)).answers [.perform (.edit ⟨1, 0⟩ ('=' :: overlongReference)),
      .perform (.read ⟨1, 0⟩)] = [.ok .done, .error .numeralTooLong] := by
  apply answers_edit_read
  · rw [Sheet.edit_of_hasColumn (by decide)]
    decide
  · exact Sheet.unreadable_edit (by decide) (RefShift.spells_replicate (by decide) (by decide)) (by simp)

end Session

end FormulaGrid
