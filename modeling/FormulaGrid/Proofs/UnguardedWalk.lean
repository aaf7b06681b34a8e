import FormulaGrid.Proofs.ReaderChains

/-!
# What an unguarded cascade passes

An unguarded cascade overflows exactly when readers lead from where it starts into a cycle, as long as
the chains without repetition fit its depth. It enters the readers of a cell in their order up to the
first that leads into a cycle, and the ones after that are not reached from there.
-/
namespace FormulaGrid.DependencyGraph
open Relation

variable {g : DependencyGraph} {a b k : CellKey} {keys : List CellKey} {d n : Nat}

theorem follow_overflow_succ :
    (g.follow (d + 1) a).overflow ↔ ∃ b ∈ g.readers a, (g.follow d b).overflow :=
  followAll_overflow

/-- An overflow has gone along a chain as long as the depth. -/
theorem exists_chain_of_overflow (h : (g.follow d a).overflow) :
    ∃ chain, (a :: chain).IsChain g.Precedes ∧ chain.length = d := by
  induction d generalizing a with
  | zero => exact ⟨[], List.isChain_singleton a, rfl⟩
  | succ d ih =>
    obtain ⟨b, hab, hb⟩ := follow_overflow_succ.mp h
    obtain ⟨chain, hchain, hlength⟩ := ih hb
    exact ⟨b :: chain, List.isChain_cons_cons.mpr ⟨hab, hchain⟩, by simp [hlength]⟩

theorem overflow_of_cyclic (h : g.Cyclic a) (d : Nat) : (g.follow d a).overflow := by
  induction d generalizing a with
  | zero => rfl
  | succ d ih =>
    obtain ⟨b, hab, hb⟩ := h.exists_reader
    exact follow_overflow_succ.mpr ⟨b, hab, ih hb⟩

/-- Below a chain without repetition that leaves no more depth than needed, an overflow means a cycle:
the whole way down is too long not to repeat a cell. -/
theorem cyclic_of_overflow (hg : g.ChainsWithin n) (path : List CellKey)
    (hchain : (path ++ [a]).IsChain g.Precedes) (hnodup : (path ++ [a]).Nodup)
    (hdepth : n ≤ path.length + d) (h : (g.follow d a).overflow) : g.Cyclic a := by
  obtain ⟨chain, hdown, hlength⟩ := exists_chain_of_overflow h
  have hwhole : (path ++ a :: chain).IsChain g.Precedes := List.isChain_split.mpr ⟨hchain, hdown⟩
  have hrepeats : ¬(path ++ a :: chain).Nodup := by
    intro hn
    have hle := hg _ hwhole hn
    simp only [List.length_append, List.length_cons] at hle
    omega
  by_cases hdownNodup : (a :: chain).Nodup
  · -- the repeated cell stands on both sides of `a`
    obtain ⟨c, hpath, hc⟩ : ∃ c ∈ path, c ∈ a :: chain := by
      apply Decidable.byContradiction
      intro hnone
      apply hrepeats
      apply List.nodup_append.mpr
      refine ⟨(List.nodup_append.mp hnodup).1, hdownNodup, ?_⟩
      rintro c hc _ hdown rfl
      exact hnone ⟨c, hc, hdown⟩
    have hac : g.Reaches a c := reflTransGen_of_chain hdown hc
    exact ⟨c, hac, (transGen_last_of_chain hchain hpath).trans_left hac⟩
  · obtain ⟨c, hc, hcycle⟩ := exists_cycle_of_not_nodup hdown hdownNodup
    exact ⟨c, reflTransGen_of_chain hdown hc, hcycle⟩

theorem overflow_iff (hg : g.ChainsWithin n) : (g.follow n a).overflow ↔ g.Cyclic a := by
  constructor
  · exact cyclic_of_overflow hg [] (List.isChain_singleton a) (List.nodup_singleton a) (by simp)
  · intro h
    exact overflow_of_cyclic h n

/-- A cell of a list comes before those after the first that leads into a cycle. -/
def Entered (g : DependencyGraph) (keys : List CellKey) (a : CellKey) : Prop :=
  ∃ before after, keys = before ++ a :: after ∧ ∀ b ∈ before, ¬g.Cyclic b

def Enters (g : DependencyGraph) (a b : CellKey) : Prop := g.Entered (g.readers a) b

/-- A cell is passed if one of a list of cells that is entered leads to it by readers that are. -/
def Passed (g : DependencyGraph) (keys : List CellKey) (k : CellKey) : Prop :=
  ∃ a, g.Entered keys a ∧ ReflTransGen g.Enters a k

theorem Enters.precedes (h : g.Enters a b) : g.Precedes a b := by
  obtain ⟨before, after, hreaders, _⟩ := h
  rw [Precedes, hreaders]
  simp

theorem mem_follow_enters (h : k ∈ (g.follow d a).cells) : ReflTransGen g.Enters a k := by
  induction d generalizing a with
  | zero => simp [follow] at h
  | succ d ih =>
    rcases List.mem_cons.mp h with rfl | h
    · exact ReflTransGen.refl
    · obtain ⟨before, b, after, hreaders, hbefore, hk⟩ := mem_followAll.mp h
      refine ReflTransGen.head ⟨before, after, hreaders, ?_⟩ (ih hk)
      intro c hc hcyclic
      have hoverflow := overflow_of_cyclic hcyclic d
      rw [hbefore c hc] at hoverflow
      cases hoverflow

/-- A reader that does not lead into a cycle is no cell of the chain above it, so the depth is enough
for it. -/
theorem overflow_of_not_cyclic (hg : g.ChainsWithin n) {path : List CellKey}
    (hchain : (path ++ [a]).IsChain g.Precedes) (hnodup : (path ++ [a]).Nodup)
    (hab : g.Precedes a b) (hb : ¬g.Cyclic b) (hdepth : n ≤ path.length + 1 + d) :
    (g.follow d b).overflow = false := by
  have hfresh : b ∉ path ++ [a] := by
    intro hmem
    have hreach : g.Reaches b a := by
      rcases List.mem_append.mp hmem with hmem | hmem
      · exact (transGen_last_of_chain hchain hmem).to_reflTransGen
      · rw [List.mem_singleton.mp hmem]
    exact hb ⟨b, ReflTransGen.refl, TransGen.tail' hreach hab⟩
  have hlonger : (path ++ [a] ++ [b]).IsChain g.Precedes := by
    rw [List.append_assoc]
    exact List.isChain_split.mpr ⟨hchain, List.isChain_pair.mpr hab⟩
  have hlongerNodup : (path ++ [a] ++ [b]).Nodup := by
    rw [← List.concat_eq_append]
    exact hnodup.concat hfresh
  apply Bool.eq_false_iff.mpr
  intro hoverflow
  exact hb (cyclic_of_overflow hg (path ++ [a]) hlonger hlongerNodup (by simpa using hdepth) hoverflow)

/-- A chain of entered cells is followed to its end. -/
theorem mem_follow_of_chain (hg : g.ChainsWithin n) (chain : List CellKey) :
    ∀ path a d, (path ++ a :: chain).IsChain g.Precedes → (path ++ a :: chain).Nodup →
      (a :: chain).IsChain g.Enters → n ≤ path.length + d →
      (a :: chain).getLast (List.cons_ne_nil a chain) ∈ (g.follow d a).cells := by
  -- the path down to `a` is carried along, since its length is what the depth has lost
  induction chain with
  | nil =>
    intro path a d hpath hnodup _ hdepth
    have hle := hg _ hpath hnodup
    simp only [List.length_append, List.length_singleton] at hle
    obtain ⟨d, rfl⟩ := Nat.exists_eq_add_one.mpr (show 0 < d by omega)
    simp [follow]
  | cons b chain ih =>
    intro path a d hpath hnodup henters hdepth
    have hle := hg _ hpath hnodup
    simp only [List.length_append, List.length_cons] at hle
    obtain ⟨d, rfl⟩ := Nat.exists_eq_add_one.mpr (show 0 < d by omega)
    have hsplit : path ++ a :: b :: chain = (path ++ [a]) ++ b :: chain := by simp
    rw [hsplit] at hpath hnodup
    obtain ⟨⟨before, after, hreaders, hbefore⟩, hrest⟩ := List.isChain_cons_cons.mp henters
    have hchain : (path ++ [a]).IsChain g.Precedes := hpath.left_of_append
    have hchainNodup : (path ++ [a]).Nodup := (List.nodup_append.mp hnodup).1
    have hbelow := ih (path ++ [a]) b d hpath hnodup hrest (by simp; omega)
    have hlater : (b :: chain).getLast (List.cons_ne_nil b chain) ∈
        (followAll (g.follow d) (g.readers a)).cells := by
      apply mem_followAll.mpr
      refine ⟨before, b, after, hreaders, ?_, hbelow⟩
      intro c hc
      have hac : g.Precedes a c := by
        rw [Precedes, hreaders]
        exact List.mem_append_left _ hc
      exact overflow_of_not_cyclic hg hchain hchainNodup hac (hbefore c hc) (by omega)
    rw [List.getLast_cons (List.cons_ne_nil b chain)]
    exact List.mem_cons_of_mem a hlater

/-- What an unguarded cascade from a cell passes is what is entered from there. -/
theorem mem_follow_iff (hg : g.ChainsWithin n) :
    k ∈ (g.follow n a).cells ↔ ReflTransGen g.Enters a k := by
  constructor
  · exact mem_follow_enters
  · intro h
    obtain ⟨chain, hchain, hnodup, rfl⟩ := exists_nodup_chain h
    have hprecedes : (a :: chain).IsChain g.Precedes := hchain.imp fun _ _ => Enters.precedes
    exact mem_follow_of_chain hg chain [] a n hprecedes hnodup hchain (by simp)

theorem followAll_overflow_iff (hg : g.ChainsWithin n) :
    (followAll (g.follow n) keys).overflow ↔ ∃ key ∈ keys, g.Cyclic key := by
  simp only [followAll_overflow, overflow_iff hg]

theorem mem_followAll_iff (hg : g.ChainsWithin n) :
    k ∈ (followAll (g.follow n) keys).cells ↔ g.Passed keys k := by
  have hfalse : ∀ b, (g.follow n b).overflow = false ↔ ¬g.Cyclic b := by
    intro b
    rw [← overflow_iff hg, Bool.not_eq_true]
  rw [mem_followAll]
  constructor
  · rintro ⟨before, a, after, hkeys, hbefore, hk⟩
    exact ⟨a, ⟨before, after, hkeys, fun b hb => (hfalse b).mp (hbefore b hb)⟩,
      (mem_follow_iff hg).mp hk⟩
  · rintro ⟨a, ⟨before, after, hkeys, hbefore⟩, hk⟩
    exact ⟨before, a, after, hkeys, fun b hb => (hfalse b).mpr (hbefore b hb),
      (mem_follow_iff hg).mpr hk⟩

theorem entered_of_not_cyclic (h : ∀ key ∈ keys, ¬g.Cyclic key) (ha : a ∈ keys) :
    g.Entered keys a := by
  obtain ⟨before, after, rfl⟩ := List.append_of_mem ha
  exact ⟨before, after, rfl, fun b hb => h b (List.mem_append_left _ hb)⟩

/-- Where no reader leads into a cycle, all that is reached is passed. -/
theorem passed_of_reaches (h : ∀ key ∈ keys, ¬g.Cyclic key) (ha : a ∈ keys)
    (hk : g.Reaches a k) : g.Passed keys k := by
  refine ⟨a, entered_of_not_cyclic h ha, ?_⟩
  have hacyclic : ¬g.Cyclic a := h a ha
  clear h ha
  induction hk using ReflTransGen.head_induction_on with
  | refl => exact ReflTransGen.refl
  | @head a b hab _ ih =>
    have hreaders : ∀ c ∈ g.readers a, ¬g.Cyclic c :=
      fun c hc hcyclic => hacyclic (hcyclic.of_reaches (ReflTransGen.single hc))
    exact ReflTransGen.head (entered_of_not_cyclic hreaders hab) (ih (hreaders b hab))

end FormulaGrid.DependencyGraph
