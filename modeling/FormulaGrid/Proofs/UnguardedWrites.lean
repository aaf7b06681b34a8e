import FormulaGrid.Proofs.MissedResults
import FormulaGrid.Proofs.UnguardedWalk

/-!
# Writing without the guard

Without the guard a write drops what its cascade passes. A result that the write concerns and the cascade
does not pass is skipped, which only happens when readers lead from a written cell into a cycle. What a
command leaves of the results is exact otherwise, unless it was not exact before.
-/
namespace FormulaGrid

namespace Sheet
open CellStore DependencyGraph Relation

variable {s s' : Sheet} {key k : CellKey} {keys : List CellKey} {text : Text} {command : Command}

/-- An empty sheet without the guard, whose cascades go down to a limit. -/
def unguarded (columns : Int) (limit : Nat) : Sheet :=
  { empty columns false with depthLimit := limit }

/-- A fill does not tear, and the chains of readers fit the depth of the cascade of a write. -/
def Roomy (s : Sheet) (command : Command) : Prop :=
  ¬command.tears s ∧ (command.writes → s.graph.ChainsWithin s.depthLimit)

theorem cascadeAll_of_unguarded (hg : s.guarded = false) (keys : List CellKey) :
    s.cascadeAll keys = followAll (s.graph.follow s.depthLimit) keys := by
  have hcascade : s.graph.cascade s.guarded s.depthLimit = s.graph.follow s.depthLimit := by
    funext key
    simp [cascade, hg]
  rw [cascadeAll, hcascade]

theorem mem_cascadeAll_of_unguarded (hg : s.guarded = false)
    (hc : s.graph.ChainsWithin s.depthLimit) :
    k ∈ (s.cascadeAll keys).cells ↔ s.graph.Passed keys k := by
  rw [cascadeAll_of_unguarded hg, mem_followAll_iff hc]

theorem verdict_of_unguarded (hg : s.guarded = false) (hc : s.graph.ChainsWithin s.depthLimit) :
    verdict (s.cascadeAll keys) = .error .circular ↔ ∃ key ∈ keys, s.graph.Cyclic key := by
  rw [cascadeAll_of_unguarded hg, ← followAll_overflow_iff hc, verdict]
  split <;> simp_all

theorem passed_singleton (g : DependencyGraph) (key : CellKey) : g.Passed [key] key :=
  ⟨key, ⟨[], [], rfl, by simp⟩, ReflTransGen.refl⟩

/-- A write that is refused changes nothing, and any other drops exactly what its cascade passes. -/
theorem operate_of_writes (hw : command.writes) (hg : s.guarded = false) (hr : s.Roomy command) :
    Wrote (s.written command) s (command.operate s) ∧
      ∀ {k : CellKey} {text}, (command.operate s).computed[k]? = some text ↔
        s.computed[k]? = some text ∧ ¬s.graph.Passed (s.written command) k := by
  obtain ⟨s', hwrote, hthere, hafter⟩ := exists_drop_of_writes hw hr.1
  rw [hafter]
  refine ⟨hwrote.drop _, ?_⟩
  intro k text
  rw [drop_computed_iff, mem_cascadeAll_of_unguarded hg (hr.2 hw)]
  constructor
  · exact And.imp_left hwrote.kept
  · rintro ⟨hk, hunpassed⟩
    refine ⟨(hthere hk).resolve_right ?_, hunpassed⟩
    intro hwritten
    exact hunpassed (hwritten ▸ passed_singleton s.graph k)

/-- A write skips a result if the cell is written, or recorded to read a written one, and the cascade
does not pass it, having gone into a cycle. -/
structure Skips (s : Sheet) (command : Command) (k : CellKey) : Prop where
  concerned : k ∈ s.written command ∨ ∃ cell ∈ s.written command, k ∈ s.graph.readers cell
  unpassed : ¬s.graph.Passed (s.written command) k
  circular : ∃ cell ∈ s.written command, s.graph.Cyclic cell

theorem skips_of_unpassed
    (hk : k ∈ s.written command ∨ ∃ cell ∈ s.written command, k ∈ s.graph.readers cell)
    (hu : ¬s.graph.Passed (s.written command) k) : s.Skips command k := by
  refine ⟨hk, hu, ?_⟩
  apply Classical.byContradiction
  intro hnone
  have hacyclic : ∀ cell ∈ s.written command, ¬s.graph.Cyclic cell :=
    fun cell hcell hcyclic => hnone ⟨cell, hcell, hcyclic⟩
  rcases hk with hk | ⟨cell, hcell, hk⟩
  · exact hu (passed_of_reaches hacyclic hk ReflTransGen.refl)
  · exact hu (passed_of_reaches hacyclic hcell (ReflTransGen.single hk))

/-- What a command leaves of the results is exact, or was not exact before, or is skipped. -/
theorem operate_results (hstep : s.graph.InStep) (hg : s.guarded = false) (hr : s.Roomy command)
    (hk : (command.operate s).computed[k]? = some text) :
    (command.operate s).Exact k text ∨
      (s.computed[k]? = some text ∧ (¬s.Exact k text ∨ s.Skips command k)) := by
  refine (operate_exact_or_missed hstep hr.1 hk).imp_right (And.imp_right (Or.imp_right ?_))
  intro hmissed
  have hunpassed := hmissed.unpassed
  rw [mem_cascadeAll_of_unguarded hg (hr.2 hmissed.writes)] at hunpassed
  exact skips_of_unpassed hmissed.concerned hunpassed

end Sheet

end FormulaGrid
