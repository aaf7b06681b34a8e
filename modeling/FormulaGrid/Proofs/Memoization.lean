import FormulaGrid.Proofs.AmpleLimits

/-!
# Memoization with the guard

The results that a guarded sheet keeps cannot be told from results evaluated anew: along every run
without a torn fill and without an overflow they are exact, and sessions answer, tell their listeners and
fail like sessions over a plain sheet. From some depth limit on a run has no overflow.
-/
namespace FormulaGrid
open CellStore Session

theorem Command.ne_circular_of_completes {s : Sheet} {source target : CellKey}
    (h : (Command.fill source target).completes s) : (s.fill source target).1 ≠ .error .circular :=
  mt isCircular_iff.mpr (Command.completes_iff.mp h).2

theorem Command.ne_numeralTooLong_of_completes {s : Sheet} {source target : CellKey}
    (h : (Command.fill source target).completes s) : (s.fill source target).1 ≠ .error .numeralTooLong :=
  mt Command.tears_fill.mpr (Command.completes_iff.mp h).1

theorem sound_kept : Keeps (fun (s : Sheet) command => command.completes s) Sheet.Sound where
  read key h := h.read key
  edit _ _ h hc := h.edit (mt isCircular_iff.mpr (Command.completes_iff.mp hc).2)
  invalidate key h := h.invalidate key
  fill _ _ h hc := h.fill (Command.ne_numeralTooLong_of_completes hc) (Command.ne_circular_of_completes hc)
  clear {s} _ := s.sound_clear

/-- A sound sheet is abstracted by its texts. -/
theorem sound_abstraction :
    Abstraction (fun (s : Sheet) command => command.completes s) Sheet.Sound Sheet.forget where
  toKeeps := sound_kept
  columns_map _ := rfl
  rawText_map _ _ := rfl
  read_map key h := Sheet.read_follows h key
  edit_map _ _ _ hc := Sheet.edit_follows (mt isCircular_iff.mpr (Command.completes_iff.mp hc).2)
  invalidate_map _ _ hc := Sheet.invalidate_follows (mt isCircular_iff.mpr (Command.completes_iff.mp hc).2)
  fill_map _ _ _ hc :=
    Sheet.fill_follows (Command.ne_numeralTooLong_of_completes hc) (Command.ne_circular_of_completes hc)
  clear_map _ := rfl

/-- A session that begins with a store, in an event loop with that many callbacks scheduled, or in none. -/
def Session.begin {σ : Type} (store : σ) (callbacks : Option Nat) : Session σ :=
  { start store with callbacks := callbacks }

theorem begin_map (columns : Int) (limit : Nat) (callbacks : Option Nat) :
    Session.begin (PlainSheet.empty columns) callbacks =
      (Session.begin (Sheet.guarding columns limit) callbacks).map Sheet.forget := rfl

theorem begin_withLimit (columns : Int) (limit : Nat) (callbacks : Option Nat) :
    Session.begin (Sheet.guarding columns limit) callbacks =
      (Session.begin (Sheet.guarding columns 0) callbacks).map (Sheet.withLimit limit) := rfl

/-- Memoization is invisible. In every run in which no fill is torn and no cascade exceeds the depth limit,
whatever listeners do in it and whichever faults they catch, a guarded sheet answers every turn like a plain
one, and leaves the same texts, queue, refreshes in progress and told events; and so do commands carried
out to their ends. For every run there is a limit from which on no cascade exceeds it. -/
theorem guarded_answers_plain (columns : Int) (callbacks : Option Nat) :
    (∀ (limit : Nat) (turns : List Turn),
      (Session.begin (Sheet.guarding columns limit) callbacks).ObeysTurns
        (fun s command => ¬command.tears s ∧ ¬command.overflows s) turns →
      (∀ turn ∈ turns, ¬turn.inspects) →
      (Session.begin (PlainSheet.empty columns) callbacks).turnAnswers turns =
        (Session.begin (Sheet.guarding columns limit) callbacks).turnAnswers turns ∧
      (Session.begin (PlainSheet.empty columns) callbacks).afterTurns turns =
        ((Session.begin (Sheet.guarding columns limit) callbacks).afterTurns turns).map Sheet.forget) ∧
    (∀ (limit : Nat) (commands : List Command),
      (Session.begin (Sheet.guarding columns limit) callbacks).ObeysAll
        (fun s command => ¬command.tears s ∧ ¬command.overflows s) commands →
      (∀ command ∈ commands, ¬command.inspects) →
      (Session.begin (PlainSheet.empty columns) callbacks).executeAll commands =
        (((Session.begin (Sheet.guarding columns limit) callbacks).executeAll commands).1,
          ((Session.begin (Sheet.guarding columns limit) callbacks).executeAll commands).2.map
            Sheet.forget)) ∧
    (∀ turns : List Turn, ∃ enough, ∀ limit, enough ≤ limit →
      (Session.begin (Sheet.guarding columns limit) callbacks).ObeysTurns
        (fun s command => ¬command.overflows s) turns) ∧
    ∀ commands : List Command, (∀ command ∈ commands, ¬command.inspects) →
      ∃ enough, ∀ limit, enough ≤ limit →
        (Session.begin (Sheet.guarding columns limit) callbacks).ObeysAll
          (fun s command => ¬command.overflows s) commands := by
  have hsound (limit : Nat) : (Session.begin (Sheet.guarding columns limit) callbacks).store.Sound :=
    Sheet.sound_guarding columns limit
  refine ⟨?turns, ?commands, ?limit, ?limits⟩
  case turns =>
    intro limit turns ho hi
    have hcompletes := ho.mono fun _ _ => Command.completes_iff.mpr
    rw [begin_map columns limit]
    exact ⟨turnAnswers_map sound_abstraction (hsound limit) hcompletes hi,
      afterTurns_map sound_abstraction (hsound limit) hcompletes⟩
  case commands =>
    intro limit commands ho hi
    have hcompletes := ho.mono fun _ _ => Command.completes_iff.mpr
    rw [begin_map columns limit]
    exact executeAll_map sound_abstraction (hsound limit) hcompletes hi
  case limit =>
    intro turns
    apply Filter.eventually_atTop.mp
    filter_upwards [eventually_ample_turns (s := Session.begin (Sheet.guarding columns 0) callbacks) rfl
      turns] with limit h
    rw [begin_withLimit]
    exact h.mono fun _ command hs => hs.not_overflows command
  case limits =>
    intro commands hi
    apply Filter.eventually_atTop.mp
    filter_upwards [eventually_ample_commands (s := Session.begin (Sheet.guarding columns 0) callbacks) rfl
      hi] with limit h
    rw [begin_withLimit]
    exact h.mono fun _ command hs => hs.not_overflows command

/-- Two fills to refresh, and a listener that overwrites what the filled formulas copy, begins a refresh
itself, and then edits a cell in no column. -/
def overwritingCommands : List Command :=
  [.listen (.named "log") [.edit ⟨1, 0⟩ ['7'], .refresh, .edit ⟨1, 9⟩ ['8']], .edit ⟨1, 0⟩ ['5'],
    .edit ⟨1, 1⟩ ['=', 'A', '1'], .read ⟨1, 1⟩, .fill ⟨1, 1⟩ ⟨2, 1⟩, .fill ⟨1, 1⟩ ⟨3, 1⟩, .refresh]

/-- The same commands with the steps of their refreshes, of which the outer one goes on because the
listener catches the fault of the inner one, and another reading after them. -/
def overwritingTurns : List Turn :=
  (overwritingCommands.map Move.perform ++ List.replicate 8 Move.step).map Turn.move ++
    [.caught, .move .step, .move .step, .move (.perform (.read ⟨1, 1⟩))]

theorem guarded_answers_plain_overwriting :
    let s := Session.begin (Sheet.guarding 3 1000) none
    let p := Session.begin (PlainSheet.empty 3) none
    s.ObeysTurns (fun s command => ¬command.tears s ∧ ¬command.overflows s) overwritingTurns ∧
    (∀ turn ∈ overwritingTurns, ¬turn.inspects) ∧
    (p.turnAnswers overwritingTurns = s.turnAnswers overwritingTurns ∧
      p.afterTurns overwritingTurns = (s.afterTurns overwritingTurns).map Sheet.forget) ∧
    s.turnAnswers overwritingTurns = List.replicate 3 (.ok .done) ++ [.ok (.text ['5']),
      .ok (.keys [⟨2, 1⟩]), .ok (.keys [⟨2, 1⟩, ⟨3, 1⟩])] ++ List.replicate 9 (.ok .done) ++
      [.error (.columnOutOfRange 9), .ok .done, .ok (.count 1), .ok (.text ['7'])] ∧
    s.ObeysAll (fun s command => ¬command.tears s ∧ ¬command.overflows s) overwritingCommands ∧
    (∀ command ∈ overwritingCommands, ¬command.inspects) ∧
    p.executeAll overwritingCommands = ((s.executeAll overwritingCommands).1,
      (s.executeAll overwritingCommands).2.map Sheet.forget) := by
  intro s p
  have hturns : s.ObeysTurns (fun s command => ¬command.tears s ∧ ¬command.overflows s)
      overwritingTurns := by decide +kernel
  have hturnsSeen : ∀ turn ∈ overwritingTurns, ¬turn.inspects := by decide +kernel
  have hanswers : s.turnAnswers overwritingTurns = List.replicate 3 (.ok .done) ++ [.ok (.text ['5']),
      .ok (.keys [⟨2, 1⟩]), .ok (.keys [⟨2, 1⟩, ⟨3, 1⟩])] ++ List.replicate 9 (.ok .done) ++
      [.error (.columnOutOfRange 9), .ok .done, .ok (.count 1), .ok (.text ['7'])] := by decide +kernel
  have hcommands : s.ObeysAll (fun s command => ¬command.tears s ∧ ¬command.overflows s)
      overwritingCommands := by
    refine ⟨?_, ?_, ?_, ?_, ?_, ?_, ?_, trivial⟩
    · exact obeys_perform_steps 0 (by decide +kernel) (by decide +kernel)
    · exact obeys_perform_steps 0 (by decide +kernel) (by decide +kernel)
    · exact obeys_perform_steps 0 (by decide +kernel) (by decide +kernel)
    · exact obeys_perform_steps 0 (by decide +kernel) (by decide +kernel)
    · exact obeys_perform_steps 0 (by decide +kernel) (by decide +kernel)
    · exact obeys_perform_steps 0 (by decide +kernel) (by decide +kernel)
    · exact obeys_perform_steps 9 (by decide +kernel) (by decide +kernel)
  have hcommandsSeen : ∀ command ∈ overwritingCommands, ¬command.inspects := by decide
  obtain ⟨hplain, hplainAll, -⟩ := guarded_answers_plain 3 none
  exact ⟨hturns, hturnsSeen, hplain 1000 overwritingTurns hturns hturnsSeen, hanswers, hcommands,
    hcommandsSeen, hplainAll 1000 overwritingCommands hcommands hcommandsSeen⟩

end FormulaGrid
