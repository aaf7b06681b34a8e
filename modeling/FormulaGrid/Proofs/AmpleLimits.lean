import FormulaGrid.Proofs.GuardedWalk
import FormulaGrid.Proofs.RecastSheets
import FormulaGrid.Proofs.Steps
import FormulaGrid.Proofs.TurnRuns
import Mathlib.Order.Filter.AtTopBot.Basic

/-!
# Depth limits that are enough

A guarded cascade cannot overflow as long as the depth limit exceeds the number of cells with readers. The
number grows in a run, but a run is finite: for each there is a limit from which on it goes the same way and
none of its cascades overflows.
-/
namespace FormulaGrid

namespace Sheet
open CellStore DependencyGraph

variable {s : Sheet} {limit : Nat} {keys : List CellKey} {command : Command}

def withLimit (limit : Nat) (s : Sheet) : Sheet := { s with depthLimit := limit }

/-- With the guard, a depth limit beyond the number of cells that have readers. -/
structure Ample (s : Sheet) : Prop where
  guarded : s.guarded
  room : s.graph.reverse.keys.length + 1 < s.depthLimit

theorem Ample.not_overflow (h : s.Ample) (keys : List CellKey) :
    (s.cascadeAll keys).overflow = false := by
  have hchains : s.graph.ChainsWithin (s.graph.reverse.keys.length + 1) :=
    chainsWithin_of_keys (Nat.lt_succ_self _)
  apply followAll_not_overflow.mpr
  intro key _
  rw [h.guarded, cascade, if_pos rfl]
  exact explore_not_overflow hchains h.room [] key

theorem Ample.not_overflows (h : s.Ample) (command : Command) : ¬command.overflows s :=
  Sheet.not_overflows h.not_overflow command

theorem Ample.withLimit (h : s.Ample) (hlimit : s.depthLimit ≤ limit) : (s.withLimit limit).Ample :=
  ⟨h.guarded, Nat.lt_of_lt_of_le h.room hlimit⟩

/-- A guarded sheet has an ample limit. -/
theorem exists_ample (hg : s.guarded) : ∃ limit, (s.withLimit limit).Ample :=
  ⟨s.graph.reverse.keys.length + 2, hg, Nat.lt_succ_self _⟩

/-- A higher limit makes no difference to a sheet with an ample one. -/
theorem ample_abstraction (limit : Nat) :
    Abstraction (fun s _ => s.Ample) (fun s => s.depthLimit ≤ limit) (withLimit limit) :=
  recast_abstraction (g := id) (l := fun _ => limit) (keeps_of_settings fun settings => settings.2.2 ≤ limit)
    fun _ command hlimit h => ⟨fun keys _ => (h.withLimit hlimit).not_overflow keys, h.not_overflows command⟩

theorem guarded_kept : Keeps (fun _ _ => True) fun s : Sheet => s.guarded :=
  keeps_of_settings fun settings => settings.2.1

end Sheet

namespace Session
open CellStore Filter Sheet

variable {s : Session Sheet}

/-- A turn of a sheet with an ample limit goes the same way under every higher one. -/
theorem turn_withLimit {first limit : Nat} {turn : Turn} (hfirst : (s.store.withLimit first).Ample)
    (hlimit : first ≤ limit) : ((s.map (withLimit limit)).turn turn).2 =
      ((s.map (withLimit first)).turn turn).2.map (withLimit limit) :=
  (turn_map (s := s.map (withLimit first)) (ample_abstraction limit) hlimit fun _ _ => hfirst).1

theorem move_withLimit {first limit : Nat} {move : Move} (hfirst : (s.store.withLimit first).Ample)
    (hlimit : first ≤ limit) : ((s.map (withLimit limit)).move move).2 =
      ((s.map (withLimit first)).move move).2.map (withLimit limit) :=
  (move_map (s := s.map (withLimit first)) (ample_abstraction limit) hlimit fun _ _ => hfirst).1

/-- From some limit on the cascades of a run do not overflow. -/
theorem eventually_ample_turns (hg : s.store.guarded) (turns : List Turn) :
    ∀ᶠ limit in atTop, (s.map (withLimit limit)).ObeysTurns (fun sheet _ => sheet.Ample) turns := by
  induction turns generalizing s with
  | nil => exact Eventually.of_forall fun _ => trivial
  | cons turn turns ih =>
    -- the next turn goes the same way under every limit that is ample for it
    obtain ⟨first, hfirst⟩ := exists_ample hg
    have hnext : ((s.map (withLimit first)).turn turn).2.store.guarded :=
      guarded_kept.turn hg fun _ _ => trivial
    filter_upwards [eventually_ge_atTop first, ih hnext] with limit hlimit hothers
    refine ⟨fun _ _ => hfirst.withLimit hlimit, ?_⟩
    rw [turn_withLimit hfirst hlimit]
    exact hothers

/-- A move of a sheet with an ample limit goes the same way under every higher one. -/
theorem obeys_cons_withLimit {first limit : Nat} {move : Move} {moves : List Move}
    (hfirst : (s.store.withLimit first).Ample) (hlimit : first ≤ limit)
    (ho : (((s.map (withLimit first)).move move).2.map (withLimit limit)).Obeys
      (fun sheet _ => sheet.Ample) moves) :
    (s.map (withLimit limit)).Obeys (fun sheet _ => sheet.Ample) (move :: moves) := by
  refine ⟨fun _ _ => hfirst.withLimit hlimit, ?_⟩
  rw [move_withLimit hfirst hlimit]
  exact ho

/-- The steps of the refreshes in progress come to an end, so there is a limit for all of them. -/
theorem eventually_ample_steps (s : Session Sheet) (hg : s.store.guarded) : ∀ᶠ limit in atTop, ∀ n,
    (s.map (withLimit limit)).Obeys (fun sheet _ => sheet.Ample) (List.replicate n .step) := by
  obtain ⟨first, hfirst⟩ := exists_ample hg
  have hnext : ((s.map (withLimit first)).move .step).2.store.guarded :=
    guarded_kept.move hg fun _ _ => trivial
  have hended (hidle : ((s.map (withLimit first)).move .step).2.active = []) : ∀ᶠ limit in atTop, ∀ n,
      (s.map (withLimit limit)).Obeys (fun sheet _ => sheet.Ample) (List.replicate n .step) := by
    filter_upwards [eventually_ge_atTop first] with limit hlimit n
    cases n with
    | zero => trivial
    | succ n =>
      have hidle' : (((s.map (withLimit first)).move .step).2.map (withLimit limit)).active = [] := hidle
      exact obeys_cons_withLimit hfirst hlimit (obeys_steps_of_idle hidle' n)
  cases hstep : (s.map (withLimit first)).step with
  | running s' =>
    have hmove : ((s.map (withLimit first)).move .step).2 = s' := by
      rw [move, hstep]
      rfl
    rw [hmove] at hnext
    filter_upwards [eventually_ge_atTop first, eventually_ample_steps s' hnext] with limit hlimit hothers n
    cases n with
    | zero => trivial
    | succ n =>
      apply obeys_cons_withLimit hfirst hlimit
      rw [hmove]
      exact hothers n
  | finished count s' =>
    refine hended ?_
    rw [move, hstep]
    exact active_of_finished hstep
  | failed fault s' =>
    refine hended ?_
    rw [move, hstep]
    exact active_of_failed hstep
termination_by s.load
decreasing_by exact step_load (s := s.map (withLimit first)) hstep

/-- From some limit on the cascades of a command and of all its steps do not overflow. -/
theorem eventually_ample_execution (hg : s.store.guarded) (command : Command) :
    ∀ᶠ limit in atTop, ∀ n, (s.map (withLimit limit)).Obeys (fun sheet _ => sheet.Ample)
      (.perform command :: List.replicate n .step) := by
  obtain ⟨first, hfirst⟩ := exists_ample hg
  have hperformed : ((s.map (withLimit first)).move (.perform command)).2.store.guarded :=
    guarded_kept.move hg fun _ _ => trivial
  filter_upwards [eventually_ge_atTop first, eventually_ample_steps _ hperformed] with limit hlimit hsteps n
  exact obeys_cons_withLimit hfirst hlimit (hsteps n)

theorem eventually_ample_commands (hg : s.store.guarded) {commands : List Command}
    (hi : ∀ command ∈ commands, ¬command.inspects) : ∀ᶠ limit in atTop,
      (s.map (withLimit limit)).ObeysAll (fun sheet _ => sheet.Ample) commands := by
  induction commands generalizing s with
  | nil => exact Eventually.of_forall fun _ => trivial
  | cons command commands ih =>
    obtain ⟨hcommand, hcommands⟩ := List.forall_mem_cons.mp hi
    obtain ⟨enough, henough⟩ := eventually_atTop.mp (eventually_ample_execution hg command)
    have hnext : ((s.map (withLimit enough)).execute command).2.store.guarded :=
      guarded_kept.execute hg fun _ => obeys_of_forall (fun _ _ => trivial) _ _
    filter_upwards [eventually_ge_atTop enough, ih hnext hcommands] with limit hlimit hothers
    have hexecute : ((s.map (withLimit limit)).execute command).2 =
        ((s.map (withLimit enough)).execute command).2.map (withLimit limit) :=
      congrArg Prod.snd
        (execute_map (ample_abstraction limit) hlimit (henough enough le_rfl) hcommand)
    refine ⟨henough limit hlimit, ?_⟩
    rw [hexecute]
    exact hothers

end Session

end FormulaGrid
