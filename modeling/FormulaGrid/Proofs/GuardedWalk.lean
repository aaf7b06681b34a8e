import FormulaGrid.Proofs.ReaderChains

/-!
# How deep a guarded cascade goes

What a guarded cascade has on the stack is a chain of distinct readers. So it overflows only if such a
chain is as long as its depth limit, whatever cycles there are, and a limit beyond the number of cells with
readers is enough for every graph. Nor does it ever go deeper than an unguarded one.
-/
namespace FormulaGrid.DependencyGraph
open Relation

variable {g : DependencyGraph} {seen : List CellKey} {a : CellKey} {d n : Nat} {guarded : Bool}

/-- An exploration that overflows has come by a chain of distinct cells as long as its depth. -/
theorem exists_chain_of_explore (h : (g.explore (d + 1) seen a).overflow) :
    ∃ chain, (a :: chain).IsChain g.Precedes ∧ (a :: chain).Nodup ∧ (∀ c ∈ a :: chain, c ∉ seen) ∧
      chain.length = d ∧ a :: chain ⊆ (g.explore (d + 1) seen a).cells := by
  induction d generalizing seen a with
  | zero =>
    have ha : a ∉ seen := by
      intro ha
      simp [explore_of_mem ha] at h
    exact ⟨[], List.isChain_singleton a, List.nodup_singleton a, by simpa using ha, rfl,
      by simpa using g.mem_explore_self 0 seen a⟩
  | succ d ih =>
    have ha : a ∉ seen := by
      intro ha
      simp [explore_of_mem ha] at h
    rw [explore_of_not_mem ha] at h ⊢
    obtain ⟨b, hab, later, hlater, hover, hend⟩ :=
      exists_overflow_of_exploreAll (g.subset_explore (d + 1)) h
    obtain ⟨chain, hchain, hnodup, hfresh, hlength, hcame⟩ := ih hover
    have hseen : a :: seen ⊆ (g.explore (d + 1) later b).cells :=
      List.Subset.trans hlater (g.subset_explore (d + 1) later b)
    refine ⟨b :: chain, List.isChain_cons_cons.mpr ⟨hab, hchain⟩, ?_, ?_, by simp [hlength], ?_⟩
    · exact List.nodup_cons.mpr ⟨fun hmem => hfresh a hmem (hlater (by simp)), hnodup⟩
    · intro c hc hmem
      rcases List.mem_cons.mp hc with rfl | hc
      · exact ha hmem
      · exact hfresh c hc (hlater (List.mem_cons_of_mem a hmem))
    · rw [hend]
      exact List.cons_subset.mpr ⟨hseen (by simp), hcame⟩

/-- The guard never makes a cascade overflow. -/
theorem follow_overflow_of_explore (h : (g.explore d seen a).overflow) : (g.follow d a).overflow := by
  induction d generalizing seen a with
  | zero => rfl
  | succ d ih =>
    by_cases ha : a ∈ seen
    · simp [explore_of_mem ha] at h
    · rw [explore_of_not_mem ha] at h
      obtain ⟨b, hab, later, -, hover, -⟩ := exists_overflow_of_exploreAll (g.subset_explore d) h
      exact followAll_overflow.mpr ⟨b, hab, ih hover⟩

theorem cascade_guard_not_overflow (h : (g.cascade guarded d a).overflow = false) :
    (g.cascade true d a).overflow = false := by
  cases guarded with
  | true => exact h
  | false =>
    rw [Bool.eq_false_iff] at h ⊢
    exact fun hover => h (follow_overflow_of_explore hover)

/-- Where the chains without repetition fit, a guarded cascade does not overflow: coming back to a cell
takes one level more. -/
theorem explore_not_overflow (hg : g.ChainsWithin n) (hd : n < d) (seen : List CellKey) (a : CellKey) :
    (g.explore d seen a).overflow = false := by
  obtain ⟨d, rfl⟩ := Nat.exists_eq_add_one_of_ne_zero (Nat.ne_zero_of_lt hd)
  rw [Bool.eq_false_iff]
  intro hover
  obtain ⟨chain, hchain, hnodup, -, hlength, -⟩ := exists_chain_of_explore hover
  have hle := hg _ hchain hnodup
  rw [List.length_cons] at hle
  omega

end FormulaGrid.DependencyGraph
