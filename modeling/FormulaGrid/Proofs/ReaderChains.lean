import FormulaGrid.Proofs.CascadeReach
import Mathlib.Data.List.Chain
import Mathlib.Data.List.Nodup
import Mathlib.Data.List.Perm.Subperm

/-!
# Chains of readers

A chain goes from a cell to one of its readers, to a reader of that one, and so on. A chain that comes by
a cell twice has gone round a cycle. What is reached at all is reached by a chain without repetition, and
only the last cell of such a chain can be one without readers.
-/
namespace FormulaGrid

section
open Relation

variable {r : CellKey → CellKey → Prop} {a b : CellKey} {chain : List CellKey}

theorem transGen_of_chain (h : (a :: chain).IsChain r) (hb : b ∈ chain) : TransGen r a b := by
  induction chain generalizing a with
  | nil => simp at hb
  | cons c chain ih =>
    obtain ⟨hac, hrest⟩ := List.isChain_cons_cons.mp h
    rcases List.mem_cons.mp hb with rfl | hb
    · exact TransGen.single hac
    · exact TransGen.head hac (ih hrest hb)

theorem reflTransGen_of_chain (h : (a :: chain).IsChain r) (hb : b ∈ a :: chain) :
    ReflTransGen r a b := by
  rcases List.mem_cons.mp hb with rfl | hb
  · exact ReflTransGen.refl
  · exact (transGen_of_chain h hb).to_reflTransGen

/-- Every cell of a chain leads to its last one. -/
theorem transGen_last_of_chain (h : (chain ++ [b]).IsChain r) (ha : a ∈ chain) :
    TransGen r a b := by
  obtain ⟨before, after, rfl⟩ := List.append_of_mem ha
  have hsuffix : (a :: (after ++ [b])).IsChain r := by
    apply h.suffix
    exact ⟨before, by simp⟩
  exact transGen_of_chain hsuffix (by simp)

theorem exists_cycle_of_not_nodup (h : chain.IsChain r) (hn : ¬chain.Nodup) :
    ∃ c ∈ chain, TransGen r c c := by
  induction chain with
  | nil => exact absurd List.nodup_nil hn
  | cons a chain ih =>
    by_cases ha : a ∈ chain
    · exact ⟨a, by simp, transGen_of_chain h ha⟩
    · have hrest : ¬chain.Nodup := fun hc => hn (List.nodup_cons.mpr ⟨ha, hc⟩)
      obtain ⟨c, hc, hcycle⟩ := ih h.of_cons hrest
      exact ⟨c, List.mem_cons_of_mem a hc, hcycle⟩

/-- A cell that a chain comes by again starts a shorter chain to the same end. -/
theorem exists_nodup_chain (h : ReflTransGen r a b) :
    ∃ chain, (a :: chain).IsChain r ∧ (a :: chain).Nodup ∧
      (a :: chain).getLast (List.cons_ne_nil a chain) = b := by
  induction h using ReflTransGen.head_induction_on with
  | refl => exact ⟨[], List.isChain_singleton b, by simp, rfl⟩
  | @head a c hac _ ih =>
    obtain ⟨chain, hchain, hnodup, hlast⟩ := ih
    by_cases ha : a ∈ c :: chain
    · obtain ⟨before, after, hsplit⟩ := List.append_of_mem ha
      have hsuffix : (a :: after) <:+ c :: chain := ⟨before, hsplit.symm⟩
      refine ⟨after, hchain.suffix hsuffix, hnodup.sublist hsuffix.sublist, ?_⟩
      rw [← hlast]
      exact hsuffix.getLast (List.cons_ne_nil a after)
    · refine ⟨c :: chain, List.isChain_cons_cons.mpr ⟨hac, hchain⟩,
        List.nodup_cons.mpr ⟨ha, hnodup⟩, ?_⟩
      rw [List.getLast_cons (List.cons_ne_nil c chain), hlast]

end

namespace DependencyGraph
open Relation

variable {g : DependencyGraph} {a b : CellKey}

/-- A cell from which readers lead into a cycle. -/
def Cyclic (g : DependencyGraph) (a : CellKey) : Prop :=
  ∃ c, g.Reaches a c ∧ TransGen g.Precedes c c

theorem Cyclic.of_reaches (hb : g.Cyclic b) (h : g.Reaches a b) : g.Cyclic a := by
  obtain ⟨c, hc, hcycle⟩ := hb
  exact ⟨c, h.trans hc, hcycle⟩

theorem Cyclic.exists_reader (h : g.Cyclic a) : ∃ b ∈ g.readers a, g.Cyclic b := by
  obtain ⟨c, hc, hcycle⟩ := h
  rcases ReflTransGen.cases_head hc with rfl | ⟨b, hab, hbc⟩
  · obtain ⟨b, hab, hba⟩ := TransGen.head'_iff.mp hcycle
    exact ⟨b, hab, a, hba, hcycle⟩
  · exact ⟨b, hab, c, hbc, hcycle⟩

/-- All chains without repetition are short enough for a depth. -/
def ChainsWithin (g : DependencyGraph) (n : Nat) : Prop :=
  ∀ chain : List CellKey, chain.IsChain g.Precedes → chain.Nodup → chain.length ≤ n

theorem dropLast_subset_of_chain {chain : List CellKey} (h : chain.IsChain g.Precedes) :
    chain.dropLast ⊆ g.reverse.keys := by
  induction chain with
  | nil => simp
  | cons a chain ih =>
    cases chain with
    | nil => simp
    | cons b chain =>
      obtain ⟨hab, hrest⟩ := List.isChain_cons_cons.mp h
      have ha : a ∈ g.reverse := by
        apply Decidable.byContradiction
        intro hnot
        simp [Precedes, readers, Std.ExtTreeMap.getElem?_eq_none hnot] at hab
      intro k hk
      rcases List.mem_cons.mp hk with rfl | hk
      · simpa using ha
      · exact ih hrest hk

/-- No chain is longer than the number of cells with readers, and one. -/
theorem chainsWithin_of_keys {n : Nat} (h : g.reverse.keys.length < n) : g.ChainsWithin n := by
  intro chain hchain hnodup
  have hdrop : chain.dropLast.Nodup := hnodup.sublist (List.dropLast_sublist chain)
  have hlen := (hdrop.subperm (dropLast_subset_of_chain hchain)).length_le
  rw [List.length_dropLast] at hlen
  omega

end DependencyGraph

end FormulaGrid
