import FormulaGrid.Cascade
import Mathlib.Logic.Relation

/-!
# What a cascade reaches

A cascade comes by direct and indirect readers of the cell it starts from, and by nothing else. If it does
not overflow, it has come by all of them, with the guard and without. With the guard the set of seen cells
is shared by all branches, so the invariant is that whatever has come to be seen has its readers seen.
-/
namespace FormulaGrid.DependencyGraph
open Relation

variable {g : DependencyGraph} {keys seen : List CellKey} {key a b k : CellKey} {d : Nat}

/-- A cell precedes those that are recorded to read it. -/
def Precedes (g : DependencyGraph) (a b : CellKey) : Prop := b ∈ g.readers a

instance (g : DependencyGraph) (a b : CellKey) : Decidable (g.Precedes a b) :=
  inferInstanceAs (Decidable (b ∈ g.readers a))

/-- A cell reaches its readers, theirs, and so on, and itself. -/
abbrev Reaches (g : DependencyGraph) : CellKey → CellKey → Prop := ReflTransGen g.Precedes

section Exploring
variable {explore : List CellKey → CellKey → Cascade}

theorem subset_exploreAll (hkeeps : ∀ seen key, seen ⊆ (explore seen key).cells) :
    seen ⊆ (exploreAll explore seen keys).cells := by
  induction keys generalizing seen with
  | nil => exact List.Subset.refl seen
  | cons key keys ih =>
    rw [exploreAll]
    split
    · exact hkeeps seen key
    · exact List.Subset.trans (hkeeps seen key) ih

theorem reaches_of_mem_exploreAll
    (hreach : ∀ seen key k, k ∈ (explore seen key).cells → k ∈ seen ∨ g.Reaches key k)
    (h : k ∈ (exploreAll explore seen keys).cells) : k ∈ seen ∨ ∃ key ∈ keys, g.Reaches key k := by
  induction keys generalizing seen with
  | nil => exact Or.inl h
  | cons key keys ih =>
    have hfirst : k ∈ (explore seen key).cells → k ∈ seen ∨ ∃ a ∈ key :: keys, g.Reaches a k :=
      fun hk => (hreach seen key k hk).imp_right fun hk => ⟨key, by simp, hk⟩
    rw [exploreAll] at h
    split at h
    · exact hfirst h
    · rcases ih h with hk | ⟨a, ha, hk⟩
      · exact hfirst hk
      · exact Or.inr ⟨a, List.mem_cons_of_mem key ha, hk⟩

/-- Some cells have come to be seen, and the readers of all that have come to be seen after others. -/
structure Explored (g : DependencyGraph) (keys seen cells : List CellKey) : Prop where
  came : keys ⊆ cells
  closed : ∀ a ∈ cells, a ∈ seen ∨ g.readers a ⊆ cells

theorem explored_exploreAll (hkeeps : ∀ seen key, seen ⊆ (explore seen key).cells)
    (hexplored : ∀ seen key, (explore seen key).overflow = false →
      g.Explored [key] seen (explore seen key).cells)
    (h : (exploreAll explore seen keys).overflow = false) :
    g.Explored keys seen (exploreAll explore seen keys).cells := by
  induction keys generalizing seen with
  | nil => exact ⟨by simp, fun a ha => Or.inl ha⟩
  | cons key keys ih =>
    by_cases hover : (explore seen key).overflow
    · simp [exploreAll, hover] at h
    have hfirst := hexplored seen key (by simpa using hover)
    have hstep : exploreAll explore seen (key :: keys) =
        exploreAll explore (explore seen key).cells keys := by
      simp [exploreAll, hover]
    rw [hstep] at h ⊢
    have hlater : (explore seen key).cells ⊆
        (exploreAll explore (explore seen key).cells keys).cells := subset_exploreAll hkeeps
    obtain ⟨hcame, hclosed⟩ := ih h
    constructor
    · intro k hk
      rcases List.mem_cons.mp hk with rfl | hk
      · exact hlater (hfirst.came (by simp))
      · exact hcame hk
    · intro a ha
      rcases hclosed a ha with ha | ha
      · exact (hfirst.closed a ha).imp_right fun hreaders => List.Subset.trans hreaders hlater
      · exact Or.inr ha

/-- An overflow is that of one of the cells, after what has been seen by then. -/
theorem exists_overflow_of_exploreAll (hkeeps : ∀ seen key, seen ⊆ (explore seen key).cells)
    (h : (exploreAll explore seen keys).overflow) : ∃ key ∈ keys, ∃ later, seen ⊆ later ∧
      (explore later key).overflow ∧ exploreAll explore seen keys = explore later key := by
  induction keys generalizing seen with
  | nil => cases h
  | cons key keys ih =>
    rw [exploreAll] at h ⊢
    split at h
    · rename_i hover
      rw [if_pos hover]
      exact ⟨key, by simp, seen, List.Subset.refl seen, h, rfl⟩
    · rename_i hover
      rw [if_neg hover]
      obtain ⟨other, hother, later, hlater, hend⟩ := ih h
      exact ⟨other, List.mem_cons_of_mem key hother, later,
        List.Subset.trans (hkeeps seen key) hlater, hend⟩

end Exploring

theorem explore_of_mem (h : key ∈ seen) : g.explore (d + 1) seen key = ⟨seen, false⟩ := by
  rw [explore, if_pos h]

theorem explore_of_not_mem (h : key ∉ seen) :
    g.explore (d + 1) seen key = exploreAll (g.explore d) (key :: seen) (g.readers key) := by
  rw [explore, if_neg h]

theorem subset_explore (g : DependencyGraph) (d : Nat) (seen : List CellKey) (key : CellKey) :
    seen ⊆ (g.explore d seen key).cells := by
  induction d generalizing seen key with
  | zero => exact List.Subset.refl seen
  | succ d ih =>
    by_cases h : key ∈ seen
    · rw [explore_of_mem h]
      exact List.Subset.refl seen
    · rw [explore_of_not_mem h]
      exact List.Subset.trans (List.subset_cons_self key seen) (subset_exploreAll ih)

theorem mem_explore_self (g : DependencyGraph) (d : Nat) (seen : List CellKey) (key : CellKey) :
    key ∈ (g.explore (d + 1) seen key).cells := by
  by_cases h : key ∈ seen
  · exact g.subset_explore (d + 1) seen key h
  · rw [explore_of_not_mem h]
    exact subset_exploreAll (g.subset_explore d) (by simp)

theorem reaches_of_mem_explore (h : k ∈ (g.explore d seen key).cells) :
    k ∈ seen ∨ g.Reaches key k := by
  induction d generalizing seen key k with
  | zero => exact Or.inl h
  | succ d ih =>
    by_cases hkey : key ∈ seen
    · rw [explore_of_mem hkey] at h
      exact Or.inl h
    · rw [explore_of_not_mem hkey] at h
      rcases reaches_of_mem_exploreAll (fun _ _ _ hk => ih hk) h with hk | ⟨b, hb, hk⟩
      · rcases List.mem_cons.mp hk with rfl | hk
        · exact Or.inr ReflTransGen.refl
        · exact Or.inl hk
      · exact Or.inr (ReflTransGen.head hb hk)

theorem explored_explore (h : (g.explore d seen key).overflow = false) :
    g.Explored [key] seen (g.explore d seen key).cells := by
  induction d generalizing seen key with
  | zero => cases h
  | succ d ih =>
    have hself := g.mem_explore_self d seen key
    by_cases hkey : key ∈ seen
    · rw [explore_of_mem hkey]
      exact ⟨by simpa using hkey, fun a ha => Or.inl ha⟩
    · rw [explore_of_not_mem hkey] at h hself ⊢
      obtain ⟨hcame, hclosed⟩ := explored_exploreAll (g.subset_explore d) (fun _ _ => ih) h
      refine ⟨by simpa using hself, ?_⟩
      intro a ha
      rcases hclosed a ha with ha | ha
      · rcases List.mem_cons.mp ha with rfl | ha
        · exact Or.inr hcame
        · exact Or.inl ha
      · exact Or.inr ha

/-- An exploration that does not overflow comes by exactly what its cell reaches. -/
theorem mem_explore_iff (h : (g.explore d [] key).overflow = false) :
    k ∈ (g.explore d [] key).cells ↔ g.Reaches key k := by
  obtain ⟨hcame, hclosed⟩ := explored_explore h
  constructor
  · intro hk
    exact (reaches_of_mem_explore hk).resolve_left (by simp)
  · intro hk
    induction hk with
    | refl => exact hcame (by simp)
    | tail _ hb ih => exact (hclosed _ ih).resolve_left (by simp) hb

theorem followAll_singleton (follow : CellKey → Cascade) (key : CellKey) :
    followAll follow [key] = follow key := by
  simp only [followAll, List.append_nil]
  split
  · rfl
  · rename_i h
    cases hf : follow key with
    | mk cells overflow => simp_all

theorem followAll_overflow {follow : CellKey → Cascade} :
    (followAll follow keys).overflow ↔ ∃ key ∈ keys, (follow key).overflow := by
  induction keys with
  | nil => simp [followAll]
  | cons key keys ih =>
    by_cases h : (follow key).overflow
    · simp [followAll, h]
    · simp [followAll, h, ih]

theorem followAll_not_overflow {follow : CellKey → Cascade} :
    (followAll follow keys).overflow = false ↔ ∀ key ∈ keys, (follow key).overflow = false := by
  rw [Bool.eq_false_iff, ne_eq, followAll_overflow]
  simp

/-- A cell is passed from the first list element that comes by it, unless an earlier one overflows. -/
theorem mem_followAll {follow : CellKey → Cascade} :
    k ∈ (followAll follow keys).cells ↔
      ∃ before key after, keys = before ++ key :: after ∧
        (∀ b ∈ before, (follow b).overflow = false) ∧ k ∈ (follow key).cells := by
  induction keys with
  | nil => simp [followAll]
  | cons key keys ih =>
    constructor
    · intro hk
      by_cases h : (follow key).overflow
      · simp only [followAll, h, if_true] at hk
        exact ⟨[], key, keys, rfl, by simp, hk⟩
      · simp only [followAll, h] at hk
        rcases List.mem_append.mp hk with hk | hk
        · exact ⟨[], key, keys, rfl, by simp, hk⟩
        · obtain ⟨before, other, after, rfl, hbefore, hk⟩ := ih.mp hk
          refine ⟨key :: before, other, after, rfl, ?_, hk⟩
          intro b hb
          rcases List.mem_cons.mp hb with rfl | hb
          · simpa using h
          · exact hbefore b hb
    · rintro ⟨before, other, after, hkeys, hbefore, hk⟩
      cases before with
      | nil =>
        obtain ⟨rfl, rfl⟩ := List.cons.inj hkeys
        simp only [followAll]
        split
        · exact hk
        · exact List.mem_append_left _ hk
      | cons first before =>
        obtain ⟨rfl, rfl⟩ := List.cons.inj hkeys
        have hfirst : (follow key).overflow = false := hbefore key (by simp)
        have hrest := ih.mpr ⟨before, other, after, rfl,
          fun b hb => hbefore b (List.mem_cons_of_mem key hb), hk⟩
        simp only [followAll, hfirst]
        exact List.mem_append_right _ hrest

theorem mem_followAll_of_not_overflow {follow : CellKey → Cascade}
    (h : (followAll follow keys).overflow = false) :
    k ∈ (followAll follow keys).cells ↔ ∃ key ∈ keys, k ∈ (follow key).cells := by
  have hkeys := followAll_not_overflow.mp h
  rw [mem_followAll]
  constructor
  · rintro ⟨before, key, after, rfl, _, hk⟩
    exact ⟨key, by simp, hk⟩
  · rintro ⟨key, hkey, hk⟩
    obtain ⟨before, after, rfl⟩ := List.append_of_mem hkey
    exact ⟨before, key, after, rfl, fun b hb => hkeys b (List.mem_append_left _ hb), hk⟩

theorem reaches_of_mem_followAll {follow : CellKey → Cascade}
    (hreach : ∀ key k, k ∈ (follow key).cells → g.Reaches key k)
    (h : k ∈ (followAll follow keys).cells) : ∃ key ∈ keys, g.Reaches key k := by
  obtain ⟨before, key, after, rfl, -, hk⟩ := mem_followAll.mp h
  exact ⟨key, by simp, hreach key k hk⟩

theorem reaches_of_mem_follow (h : k ∈ (g.follow d key).cells) : g.Reaches key k := by
  induction d generalizing key k with
  | zero => cases h
  | succ d ih =>
    rcases List.mem_cons.mp h with rfl | h
    · exact ReflTransGen.refl
    · obtain ⟨b, hb, hk⟩ := reaches_of_mem_followAll (fun _ _ => ih) h
      exact ReflTransGen.head hb hk

/-- A walk that comes to its end has passed all that can be reached. -/
theorem mem_follow_iff_of_not_overflow (h : (g.follow d key).overflow = false) :
    k ∈ (g.follow d key).cells ↔ g.Reaches key k := by
  refine ⟨reaches_of_mem_follow, ?_⟩
  intro hk
  induction d generalizing key with
  | zero => cases h
  | succ d ih =>
    have hreaders : (followAll (g.follow d) (g.readers key)).overflow = false := h
    rw [follow, List.mem_cons, mem_followAll_of_not_overflow hreaders]
    rcases ReflTransGen.cases_head hk with rfl | ⟨b, hb, hk⟩
    · exact Or.inl rfl
    · exact Or.inr ⟨b, hb, ih (followAll_not_overflow.mp hreaders b hb) hk⟩

variable {guarded : Bool}

theorem reaches_of_mem_cascade (h : k ∈ (g.cascade guarded d key).cells) : g.Reaches key k := by
  cases guarded with
  | true => exact (reaches_of_mem_explore h).resolve_left (by simp)
  | false => exact reaches_of_mem_follow h

/-- With the guard and without, a cascade that does not overflow comes by exactly what its cell
reaches. -/
theorem mem_cascade_iff (h : (g.cascade guarded d key).overflow = false) :
    k ∈ (g.cascade guarded d key).cells ↔ g.Reaches key k := by
  cases guarded with
  | true => exact mem_explore_iff h
  | false => exact mem_follow_iff_of_not_overflow h

end FormulaGrid.DependencyGraph
