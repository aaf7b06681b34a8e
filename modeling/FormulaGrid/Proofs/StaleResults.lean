import FormulaGrid.Proofs.UnguardedWrites

/-!
# Stale results without the guard

Without the guard a cell displays what it does on a plain sheet, unless an earlier write failed on a
cycle before its cascade came to the cell, and the result that it should have dropped has been there ever
since. A run of three formulas and one failing edit shows that this happens.
-/
namespace FormulaGrid

namespace Session
open CellStore

variable {s : Session Sheet} {moves : List Move} {key : CellKey} {text : Text}

/-- A result that a write of the run has skipped, and that was there before it and has been ever since. -/
def Skipped (s : Session Sheet) (moves : List Move) (key : CellKey) (text : Text) : Prop :=
  Sheet.Outlasts (fun moves => (s.after moves).store)
    (fun before move key =>
      ∃ command ∈ (s.after before).command? move, (s.after before).store.Skips command key)
    moves key text

/-- Along a run every result is exact or has been skipped. -/
theorem exact_or_skipped (columns : Int) (limit : Nat) (moves : List Move)
    (ho : (start (Sheet.unguarded columns limit)).Obeys Sheet.Roomy moves)
    (hkey : ((start (Sheet.unguarded columns limit)).after moves).store.computed[key]? = some text) :
    ((start (Sheet.unguarded columns limit)).after moves).store.Exact key text ∨
      (start (Sheet.unguarded columns limit)).Skipped moves key text := by
  generalize hs : start (Sheet.unguarded columns limit) = s at *
  refine Sheet.exact_or_outlasts (fun moves => (s.after moves).store) ?_ ?_ hkey
  · intro key
    simp [after_nil, ← hs, start, Sheet.unguarded, Sheet.empty]
  clear hkey
  intro before move hprefix key text hkey
  obtain ⟨later, rfl⟩ := hprefix
  rw [obeys_append, obeys_append] at ho
  obtain ⟨⟨hbefore, hmove, _⟩, _⟩ := ho
  have hstep : (s.after before).store.graph.InStep :=
    Sheet.inStep_kept.after (hs ▸ DependencyGraph.inStep_empty) hbefore
  have hset : (s.after before).store.settings = (columns, false, limit) :=
    (Sheet.settings_kept _).after (hs ▸ rfl) hbefore
  rw [after_concat] at hkey ⊢
  rcases (s.after before).move_store_cases move with hsame | ⟨command, hcommand, hstore⟩
  · rw [hsame] at hkey ⊢
    exact (Classical.em _).imp_right fun hstale => ⟨hkey, Or.inl hstale⟩
  · rw [hstore] at hkey ⊢
    have hresults := Sheet.operate_results hstep (Sheet.guarded_of_settings hset) (hmove command hcommand)
      hkey
    exact hresults.imp_right (And.imp_right (Or.imp_right fun hskips => ⟨command, hcommand, hskips⟩))

/-- In every state of an unguarded run a cell displays what it does on a plain sheet, or displays a
result that a write has skipped. A write leaves exactly the results that its cascade does not pass. -/
theorem unguarded_shown_or_skipped (columns : Int) (limit : Nat) (moves : List Move)
    (ho : (start (Sheet.unguarded columns limit)).Obeys Sheet.Roomy moves) :
    let s := ((start (Sheet.unguarded columns limit)).after moves).store
    (∀ key, (s.read key).1 = s.forget.shown key ∨ ∃ text, s.computed[key]? = some text ∧
      (start (Sheet.unguarded columns limit)).Skipped moves key text) ∧
    ∀ command : Command, command.writes → s.Roomy command → ∀ (key : CellKey) (text : Text),
      (command.operate s).computed[key]? = some text ↔
        s.computed[key]? = some text ∧ ¬s.graph.Passed (s.written command) key := by
  intro s
  constructor
  · intro key
    by_cases hexact : ∀ text, s.computed[key]? = some text → s.Exact key text
    · exact Or.inl (Sheet.read_shown hexact)
    · rw [not_forall] at hexact
      obtain ⟨text, hstale⟩ := hexact
      rw [Classical.not_imp] at hstale
      obtain ⟨hkey, hstale⟩ := hstale
      have hskipped := (exact_or_skipped columns limit moves ho hkey).resolve_left hstale
      exact Or.inr ⟨text, hkey, hskipped⟩
  · intro command hw hr key text
    have hset : s.settings = (columns, false, limit) := (Sheet.settings_kept _).after rfl ho
    have hguard : s.guarded = false := Sheet.guarded_of_settings hset
    exact (Sheet.operate_of_writes hw hguard hr).2

/-- Two formulas on a cycle and one beside it, all of them read, and then an edit that breaks the
cycle: its cascade still goes round it, and does not come to the third formula. -/
def tangledMoves : List Move :=
  [.perform (.edit ⟨1, 0⟩ ['=', 'B', '1']), .perform (.edit ⟨1, 1⟩ ['=', 'A', '1']),
    .perform (.edit ⟨1, 2⟩ ['=', 'A', '1']), .perform (.read ⟨1, 0⟩), .perform (.read ⟨1, 1⟩),
    .perform (.read ⟨1, 2⟩), .perform (.edit ⟨1, 0⟩ ['7'])]

theorem roomy_of_keys {s : Sheet} {command : Command}
    (h : ¬command.tears s ∧ s.graph.reverse.keys.length < s.depthLimit) : s.Roomy command :=
  ⟨h.1, fun _ => DependencyGraph.chainsWithin_of_keys h.2⟩

theorem unguarded_shown_or_skipped_tangled :
    let s := ((start (Sheet.unguarded 3 1000)).after tangledMoves).store
    (start (Sheet.unguarded 3 1000)).Obeys Sheet.Roomy tangledMoves ∧
    (∃ text, s.computed[(⟨1, 2⟩ : CellKey)]? = some text ∧
      (start (Sheet.unguarded 3 1000)).Skipped tangledMoves ⟨1, 2⟩ text) ∧
    s.Roomy (.edit ⟨1, 0⟩ ['8']) ∧
    (((Command.edit ⟨1, 0⟩ ['8']).operate s).computed[(⟨1, 2⟩ : CellKey)]? = some ['0'] ↔
      s.computed[(⟨1, 2⟩ : CellKey)]? = some ['0'] ∧
        ¬s.graph.Passed (s.written (.edit ⟨1, 0⟩ ['8'])) ⟨1, 2⟩) := by
  intro s
  have hkeys : (start (Sheet.unguarded 3 1000)).Obeys
      (fun s command => ¬command.tears s ∧ s.graph.reverse.keys.length < s.depthLimit)
      tangledMoves := by decide +kernel
  have ho : (start (Sheet.unguarded 3 1000)).Obeys Sheet.Roomy tangledMoves :=
    hkeys.mono fun _ _ => roomy_of_keys
  have hr : s.Roomy (.edit ⟨1, 0⟩ ['8']) := roomy_of_keys (by decide +kernel)
  have hstale : (s.read ⟨1, 2⟩).1 ≠ s.forget.shown ⟨1, 2⟩ := by decide +kernel
  have hall := unguarded_shown_or_skipped 3 1000 tangledMoves ho
  exact ⟨ho, (hall.1 ⟨1, 2⟩).resolve_left hstale, hr, hall.2 _ rfl hr ⟨1, 2⟩ ['0']⟩

/-- The edit that fails has stored its text, and the third formula still displays the result from
before. -/
theorem stale_after_failed_edit :
    let s := ((start (Sheet.unguarded 3 1000)).after tangledMoves).store
    ((start (Sheet.unguarded 3 1000)).answers tangledMoves).getLast? = some (.error .circular) ∧
    s.rawText ⟨1, 0⟩ = ['7'] ∧ s.rawText ⟨1, 2⟩ = ['=', 'A', '1'] ∧
    (s.read ⟨1, 2⟩).1 = .ok ['0'] ∧ s.forget.shown ⟨1, 2⟩ = .ok ['7'] := by
  decide +kernel

end Session

end FormulaGrid
