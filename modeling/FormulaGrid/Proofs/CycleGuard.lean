import FormulaGrid.Proofs.GuardedWalk
import FormulaGrid.Proofs.RecastSheets
import FormulaGrid.Proofs.Steps
import FormulaGrid.Proofs.UnguardedWrites

/-!
# What the cycle guard changes

A cascade that does not overflow passes the same cells with and without the guard. So a sheet and the
same sheet with the guard go through a run with the same answers and come out alike, as long as nothing
in the run goes round a cycle of readers.
-/
namespace FormulaGrid

namespace DependencyGraph

variable {g : DependencyGraph} {n : Nat}

/-- The cells that occur in the graph, as formulas, as cells read or as readers. -/
def cells (g : DependencyGraph) : List CellKey :=
  ((g.forward.toList ++ g.reverse.toList).flatMap fun entry => entry.1 :: entry.2).eraseDups

theorem keys_subset_cells (g : DependencyGraph) : g.reverse.keys ⊆ g.cells := by
  intro key hkey
  rw [← Std.ExtTreeMap.map_fst_toList_eq_keys] at hkey
  obtain ⟨entry, hentry, rfl⟩ := List.mem_map.mp hkey
  rw [cells, List.mem_eraseDups, List.mem_flatMap]
  exact ⟨entry, List.mem_append_right _ hentry, by simp⟩

/-- A depth beyond the number of cells is enough for every chain without repetition. -/
theorem chainsWithin_of_cells (h : g.cells.length < n) : g.ChainsWithin n := by
  have hnodup : g.reverse.keys.Nodup := g.reverse.nodup_keys
  have hle := (hnodup.subperm g.keys_subset_cells).length_le
  exact chainsWithin_of_keys (Nat.lt_of_le_of_lt hle h)

end DependencyGraph

namespace Sheet
open CellStore DependencyGraph

variable {s : Sheet} {key : CellKey}

/-- The sheet with the guard on. -/
def guard (s : Sheet) : Sheet := { s with guarded := true }

theorem invalidate_circular_iff (hg : s.guarded = false)
    (hc : s.graph.cells.length + 1 < s.depthLimit) :
    (s.invalidate key).1 = .error .circular ↔ s.graph.Cyclic key := by
  have hchains : s.graph.ChainsWithin s.depthLimit := chainsWithin_of_cells (by omega)
  rw [invalidate_eq]
  simp [verdict_of_unguarded hg hchains]

theorem invalidate_ok (h : (s.invalidate key).1 ≠ .error .circular) :
    (s.invalidate key).1 = .ok () := by
  rw [invalidate_eq] at h ⊢
  exact verdict_of_not_overflow (not_overflow_of_verdict h)

/-- The guard never makes a cascade overflow. -/
theorem spares_guard (s : Sheet) : s.Spares (fun _ => true) id := by
  intro keys h
  rw [cascadeAll, followAll_not_overflow] at h ⊢
  exact fun key hkey => cascade_guard_not_overflow (h key hkey)

theorem invalidate_guard (h : (s.invalidate key).1 ≠ .error .circular) :
    s.guard.invalidate key = abstracted guard (s.invalidate key) :=
  s.spares_guard.invalidate h

end Sheet

/-- Where no command overflows, the guard leaves all operations as they are. -/
theorem guard_abstraction : CellStore.Abstraction (fun (s : Sheet) command => ¬command.overflows s)
    (fun _ => True) Sheet.guard :=
  Sheet.recast_abstraction (g := fun _ => true) (l := id)
    ⟨fun _ _ => trivial, fun _ _ _ _ => trivial, fun _ _ => trivial, fun _ _ _ _ => trivial,
      fun _ => trivial⟩
    fun s _ _ h => ⟨s.spares_guard, h⟩

namespace Session
open CellStore

section
variable {σ : Type} [CellStore σ] {s : Session σ} {command : Command}

/-- A command whose cascade overflows fails as circular. -/
theorem perform_of_overflows (h : command.overflows s.store) :
    (s.perform command).1 = .error .circular := by
  cases command with
  | edit key text =>
    have hstore : (CellStore.edit s.store key text).1 = .error .circular := isCircular_iff.mp h
    simp only [perform, answering, within, hstore]
    rfl
  | invalidate key =>
    have hstore : (CellStore.invalidate s.store key).1 = .error .circular := isCircular_iff.mp h
    simp only [perform, answering, within, hstore]
    rfl
  | fill source target =>
    have hstore : (CellStore.fill s.store source target).1 = .error .circular := isCircular_iff.mp h
    simp only [perform, answering, fill]
    cases hfill : CellStore.fill s.store source target with
    | mk outcome store =>
      rw [hfill] at hstore
      obtain rfl : outcome = .error .circular := hstore
      rfl
  | _ => cases h

theorem step_of_overflows (hcommand : command ∈ s.nextCommand?) (h : command.overflows s.store) :
    ∃ s', s.step = .failed .circular s' := by
  unfold nextCommand? at hcommand
  unfold step
  cases hactive : s.active with
  | nil => simp [hactive] at hcommand
  | cons top below =>
    obtain ⟨speaker, calls, rest, count⟩ := top
    rw [hactive] at hcommand
    cases speaker with
    | some name =>
      simp only [stepScript] at hcommand ⊢
      cases htake : s.scripts.takeCommand? name with
      | none => simp [htake] at hcommand
      | some taken =>
        obtain ⟨next, scripts⟩ := taken
        obtain rfl : next = command := by simpa [htake] using hcommand
        have hperform := perform_of_overflows (s := { s with scripts := scripts }) h
        dsimp only
        cases hnext : { s with scripts := scripts }.perform next with
        | mk outcome s' =>
          rw [hnext] at hperform
          obtain rfl : outcome = .error .circular := hperform
          exact ⟨_, rfl⟩
    | none =>
      cases calls with
      | cons notice calls => simp at hcommand
      | nil =>
        cases rest with
        | cons key rest =>
          obtain rfl : Command.read key = command := by simpa using hcommand
          cases h
        | nil => simp at hcommand

theorem move_of_overflows {move : Move} (hcommand : command ∈ s.command? move)
    (h : command.overflows s.store) : (s.move move).1 = .error .circular := by
  cases move with
  | perform other =>
    obtain rfl : other = command := by simpa [command?] using hcommand
    exact perform_of_overflows h
  | step =>
    obtain ⟨s', hstep⟩ := step_of_overflows hcommand h
    simp [move, hstep, ofOutcome]
  | abandon => simp [command?] at hcommand

/-- Steps after the next obey a condition, too. -/
theorem obeys_steps_succ {condition : σ → Command → Prop} {s' : Session σ} {n : Nat}
    (hnext : (s.move .step).2 = s') (hc : ∀ command ∈ s.nextCommand?, condition s.store command)
    (ho : s'.Obeys condition (List.replicate n .step)) :
    s.Obeys condition (List.replicate (n + 1) .step) := by
  refine ⟨hc, ?_⟩
  rw [hnext]
  exact ho

theorem calm_of_settle (h : s.settle.1 ≠ .error .circular) :
    ∀ command ∈ s.nextCommand?, ¬command.overflows s.store := by
  intro command hcommand hover
  obtain ⟨s', hstep⟩ := step_of_overflows hcommand hover
  rw [settle_of_failed hstep] at h
  exact h rfl

/-- A refresh that does not end as circular has no command that goes round a cycle. -/
theorem obeys_of_settle (h : s.settle.1 ≠ .error .circular) (n : Nat) :
    s.Obeys (fun store command => ¬command.overflows store) (List.replicate n .step) := by
  induction s using settle.induct generalizing n with
  | case1 s s' hstep ih =>
    have hcalm := calm_of_settle h
    rw [settle_of_running hstep] at h
    cases n with
    | zero => trivial
    | succ n => exact obeys_steps_succ (by simp [move, hstep, ofOutcome]) hcalm (ih h n)
  | case2 s count s' hstep =>
    cases n with
    | zero => trivial
    | succ n =>
      exact obeys_steps_succ (by simp [move, hstep, ofOutcome]) (calm_of_settle h)
        (obeys_steps_of_idle (active_of_finished hstep) n)
  | case3 s fault s' hstep =>
    cases n with
    | zero => trivial
    | succ n =>
      exact obeys_steps_succ (by simp [move, hstep, ofOutcome]) (calm_of_settle h)
        (obeys_steps_of_idle (active_of_failed hstep) n)

theorem executeAll_concat (commands : List Command) (command : Command) :
    (s.executeAll (commands ++ [command])).1 =
      (s.executeAll commands).1 ++ [((s.executeAll commands).2.execute command).1] := by
  induction commands generalizing s with
  | nil => rfl
  | cons first commands ih => exact congrArg (_ :: ·) ih

theorem answers_isPrefix {early moves : List Move} (h : early <+: moves) :
    s.answers early <+: s.answers moves := by
  induction early generalizing s moves with
  | nil => exact List.nil_prefix
  | cons move early ih =>
    obtain ⟨late, rfl⟩ := h
    exact (List.prefix_cons_inj _).mpr (ih (List.prefix_append early late))

theorem executeAll_isPrefix {early commands : List Command} (h : early <+: commands) :
    (s.executeAll early).1 <+: (s.executeAll commands).1 := by
  induction early generalizing s commands with
  | nil => exact List.nil_prefix
  | cons command early ih =>
    obtain ⟨late, rfl⟩ := h
    exact (List.prefix_cons_inj _).mpr (ih (List.prefix_append early late))

end

variable {s : Session Sheet}

theorem perform_guard {command : Command} (h : (s.perform command).1 ≠ .error .circular) :
    (s.map Sheet.guard).perform command = abstracted (map Sheet.guard) (s.perform command) := by
  by_cases hi : command.inspects
  · cases command with
    | cached key => rfl
    | dependencies key => rfl
    | _ => cases hi
  · exact perform_map guard_abstraction trivial (fun hover => h (perform_of_overflows hover)) hi

theorem move_guard {move : Move} (h : (s.move move).1 ≠ .error .circular) :
    (s.map Sheet.guard).move move = abstracted (map Sheet.guard) (s.move move) := by
  cases move with
  | perform command => exact perform_guard h
  | step =>
    have hcalm : ∀ command ∈ s.command? .step, ¬command.overflows s.store :=
      fun command hcommand hover => h (move_of_overflows hcommand hover)
    have hmap := move_map guard_abstraction trivial hcalm
    exact Prod.ext (hmap.2 Bool.false_ne_true) hmap.1
  | abandon => rfl

theorem run_guard {moves : List Move} (h : .error .circular ∉ s.answers moves) :
    (s.map Sheet.guard).answers moves = s.answers moves ∧
      (s.map Sheet.guard).after moves = (s.after moves).map Sheet.guard := by
  induction moves generalizing s with
  | nil => exact ⟨rfl, rfl⟩
  | cons move moves ih =>
    rw [answers, List.mem_cons, not_or] at h
    have hmove := move_guard (Ne.symm h.1)
    obtain ⟨hanswers, hafter⟩ := ih h.2
    rw [answers, after_cons, hmove]
    exact ⟨congrArg _ hanswers, hafter⟩

theorem execute_guard {command : Command} (h : (s.execute command).1 ≠ .error .circular) :
    (s.map Sheet.guard).execute command = abstracted (map Sheet.guard) (s.execute command) := by
  by_cases hc : command = .refresh
  · subst hc
    have hcalm : (s.perform .refresh).2.settle.1 ≠ .error .circular := by
      intro hcircular
      apply h
      rw [execute, answering, refresh, hcircular]
      rfl
    have hsettle := settle_map guard_abstraction trivial (obeys_of_settle hcalm)
    have hrefresh : (s.map Sheet.guard).refresh = abstracted (map Sheet.guard) s.refresh := hsettle
    rw [execute, execute, hrefresh, answering_map]
  · rw [execute_of_ne_refresh hc] at h ⊢
    rw [execute_of_ne_refresh hc]
    exact perform_guard h

theorem executeAll_guard {commands : List Command}
    (h : .error .circular ∉ (s.executeAll commands).1) :
    (s.map Sheet.guard).executeAll commands =
      ((s.executeAll commands).1, (s.executeAll commands).2.map Sheet.guard) := by
  induction commands generalizing s with
  | nil => rfl
  | cons command commands ih =>
    simp only [executeAll, List.mem_cons, not_or] at h
    simp only [executeAll, execute_guard (Ne.symm h.1), abstracted, ih h.2]

end Session

/-- Without the guard an invalidation fails as circular exactly at cells from which a cycle of readers
can be reached, and where it does not fail the guard makes no difference to it. A run of which no answer
is circular goes the same way with the guard: it has the same answers, and at each of its points the
same contents, results, dependencies and queue. -/
theorem guard_alters_cycles_only :
    (∀ (s : Sheet) (key : CellKey), s.guarded = false → s.graph.cells.length + 1 < s.depthLimit →
      ((s.invalidate key).1 = .error .circular ↔ s.graph.Cyclic key)) ∧
    (∀ (s : Sheet) (key : CellKey), (s.invalidate key).1 ≠ .error .circular →
      (s.invalidate key).1 = .ok () ∧
        s.guard.invalidate key = (.ok (), (s.invalidate key).2.guard)) ∧
    (∀ (s : Session Sheet) (moves : List Move), .error .circular ∉ s.answers moves →
      ∀ early, early <+: moves →
        (s.map Sheet.guard).answers early = s.answers early ∧
          (s.map Sheet.guard).after early = (s.after early).map Sheet.guard) ∧
    ∀ (s : Session Sheet) (commands : List Command),
      .error .circular ∉ (s.executeAll commands).1 →
        ∀ early, early <+: commands →
          (s.map Sheet.guard).executeAll early =
            ((s.executeAll early).1, (s.executeAll early).2.map Sheet.guard) := by
  refine ⟨?circular, ?invalidation, ?moves, ?commands⟩
  case circular => exact fun s key => Sheet.invalidate_circular_iff
  case invalidation =>
    intro s key h
    have hok := Sheet.invalidate_ok h
    exact ⟨hok, by rw [Sheet.invalidate_guard h, abstracted, hok]⟩
  case moves =>
    intro s moves h early hearly
    exact Session.run_guard fun hmem => h ((Session.answers_isPrefix hearly).subset hmem)
  case commands =>
    intro s commands h early hearly
    exact Session.executeAll_guard fun hmem => h ((Session.executeAll_isPrefix hearly).subset hmem)

/-- Two cells that copy a third, a fourth that adds them up, and a fill of that. -/
def sharedReaders : List Command :=
  [.edit ⟨1, 1⟩ ['=', 'A', '1'], .edit ⟨1, 2⟩ ['=', 'A', '1'],
    .edit ⟨1, 3⟩ ['=', 'B', '1', '+', 'C', '1'], .read ⟨1, 3⟩, .read ⟨1, 1⟩, .read ⟨1, 2⟩,
    .edit ⟨1, 0⟩ ['5'], .fill ⟨1, 3⟩ ⟨2, 3⟩]

theorem guard_alters_cycles_only_shared :
    let s := Session.start (Sheet.empty 4 false)
    let sheet := (s.executeAll sharedReaders).2.store
    let moves := sharedReaders.map .perform ++ [.perform .refresh, .step, .step, .step, .perform .clear]
    let commands := sharedReaders ++ [.refresh]
    (sheet.guarded = false ∧ sheet.graph.cells.length + 1 < sheet.depthLimit ∧
      ((sheet.invalidate ⟨1, 0⟩).1 = .error .circular ↔ sheet.graph.Cyclic ⟨1, 0⟩)) ∧
    ((sheet.invalidate ⟨1, 0⟩).1 ≠ .error .circular ∧
      (sheet.invalidate ⟨1, 0⟩).1 = .ok () ∧
        sheet.guard.invalidate ⟨1, 0⟩ = (.ok (), (sheet.invalidate ⟨1, 0⟩).2.guard)) ∧
    (.error .circular ∉ s.answers moves ∧ moves.take 9 <+: moves ∧
      (s.map Sheet.guard).answers (moves.take 9) = s.answers (moves.take 9) ∧
        (s.map Sheet.guard).after (moves.take 9) = (s.after (moves.take 9)).map Sheet.guard) ∧
    .error .circular ∉ (s.executeAll commands).1 ∧ commands <+: commands ∧
      (s.map Sheet.guard).executeAll commands =
        ((s.executeAll commands).1, (s.executeAll commands).2.map Sheet.guard) := by
  intro s sheet moves commands
  have hsheet : sheet.guarded = false ∧ sheet.graph.cells.length + 1 < sheet.depthLimit := by
    decide +kernel
  have hcalm : (sheet.invalidate ⟨1, 0⟩).1 ≠ .error .circular := by decide +kernel
  have hmoves : .error .circular ∉ s.answers moves := by decide +kernel
  have hcommands : .error .circular ∉ (s.executeAll commands).1 := by
    have hrefresh : ((s.executeAll sharedReaders).2.perform .refresh).2.settle.1 = .ok 1 :=
      Session.settle_of_settled (n := 4) (by decide +kernel)
    rw [Session.executeAll_concat, Session.execute, Session.answering, Session.refresh, hrefresh]
    decide +kernel
  obtain ⟨hcircular, hinvalidation, hrun, hexecution⟩ := guard_alters_cycles_only
  exact ⟨⟨hsheet.1, hsheet.2, hcircular sheet ⟨1, 0⟩ hsheet.1 hsheet.2⟩,
    ⟨hcalm, hinvalidation sheet ⟨1, 0⟩ hcalm⟩,
    ⟨hmoves, List.take_prefix 9 moves, hrun s moves hmoves _ (List.take_prefix 9 moves)⟩,
    hcommands, List.prefix_rfl, hexecution s commands hcommands _ List.prefix_rfl⟩

end FormulaGrid
