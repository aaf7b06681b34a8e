import FormulaGrid.Proofs.UnguardedWrites
import Mathlib.Data.List.Induction

/-!
# Circular edits

Without the guard an edit fails exactly when recorded readers lead from its cell into a cycle. Every
recorded reading was a reference of the reader's text at some moment of the run, but it may be one no
longer: texts that never had a cycle at any moment can leave a recorded one behind.
-/
namespace FormulaGrid

namespace Sheet
open CellStore DependencyGraph Relation

variable {s s' : Sheet} {a b c key : CellKey} {text : Text} {command : Command}

/-- The text of a cell is a formula with another cell among its operands. -/
def Refers (s : Sheet) (a b : CellKey) : Prop :=
  ∃ formula, Formula.parse (s.rawText a) = some formula ∧ b ∈ formula.references

/-- The readings recorded after some readings of cells are old ones or references now. -/
structure Records (s s' : Sheet) : Prop where
  raw : s'.raw = s.raw
  inStep : s'.graph.InStep
  links : ∀ {a b}, s'.graph.Precedes a b → s.graph.Precedes a b ∨ s.Refers b a

theorem Records.refl (h : s.graph.InStep) : Records s s := ⟨rfl, h, Or.inl⟩

theorem Records.read (h : Records s s') (key : CellKey) : Records s (s'.read key).2 where
  raw := (s'.read_raw key).trans h.raw
  inStep := read_inStep h.inStep key
  links := by
    intro a b hab
    rcases s'.read_cases key with hsame | ⟨formula, e, hp, he, hmemo⟩
    · rw [hsame] at hab
      exact h.links hab
    · rw [hmemo] at hab
      rcases h.inStep.mem_readers_record.mp hab with ⟨rfl, ha⟩ | ⟨_, hold⟩
      · have hraw : s'.rawText = s.rawText := by
          funext k
          simp [rawText, h.raw]
        rw [hraw] at hp he
        exact Or.inr ⟨formula, hp, Formula.evaluate_references hp he ha⟩
      · exact h.links hold

theorem Records.refers (h : Records s s') (hab : s'.graph.Precedes a b) :
    s.graph.Precedes a b ∨ s'.Refers b a := by
  refine (h.links hab).imp_right ?_
  rintro ⟨formula, hp, ha⟩
  refine ⟨formula, ?_, ha⟩
  rwa [rawText, h.raw]

/-- What a command records are references of the texts that it leaves. -/
theorem operate_precedes (hstep : s.graph.InStep) (h : (command.operate s).graph.Precedes a b) :
    s.graph.Precedes a b ∨ (command.operate s).Refers b a := by
  have hsame : (command.operate s).graph = s.graph →
      s.graph.Precedes a b ∨ (command.operate s).Refers b a := by
    intro hgraph
    rw [hgraph] at h
    exact Or.inl h
  cases command with
  | edit key text => exact hsame (s.edit_graph key text)
  | fill source target => exact hsame (s.fill_graph source target)
  | read key => exact ((Records.refl hstep).read key).refers h
  | render rows =>
    have hrecords : Records s (renderRows s rows).2 :=
      renderRows_invariant (fun key h => h.read key) rows (Records.refl hstep)
    exact hrecords.refers h
  | clear =>
    have hempty : ((Command.clear).operate s).graph.readers a = [] := empty_readers a
    rw [Precedes, hempty] at h
    cases h
  | _ => exact hsame rfl

/-- Where all readings on cycles that a cell leads to are references, a recorded cycle is one of the
texts. -/
theorem transGen_refers (hreach : s.graph.Reaches key c)
    (hlinks : ∀ a b, s.graph.Reaches key a → s.graph.Precedes a b → s.graph.Reaches b a →
      s'.Refers b a)
    {d : CellKey} (hd : TransGen s.graph.Precedes c d) (hback : s.graph.Reaches d c) :
    TransGen s'.Refers d c := by
  -- references point from readers to what they read, so the walk comes back along them
  induction hd with
  | single hcd => exact TransGen.single (hlinks _ _ hreach hcd hback)
  | @tail a d hca had ih =>
    have ha : TransGen s'.Refers a c := ih (ReflTransGen.head had hback)
    have hkey : s.graph.Reaches key a := hreach.trans hca.to_reflTransGen
    have hlink : s'.Refers d a := hlinks a d hkey had (hback.trans hca.to_reflTransGen)
    exact TransGen.head hlink ha

theorem edit_circular_iff (hg : s.guarded = false) (hc : s.graph.ChainsWithin s.depthLimit)
    (hcol : s.hasColumn key.col) (text : Text) :
    (s.edit key text).1 = .error .circular ↔ s.graph.Cyclic key := by
  rw [edit_of_hasColumn hcol]
  simp [verdict_of_unguarded hg hc]

theorem Refers.mem_keys (h : s.Refers a b) : a ∈ s.raw.keys := by
  rw [Std.ExtTreeMap.mem_keys]
  apply Decidable.byContradiction
  intro hnot
  obtain ⟨formula, hp, _⟩ := h
  rw [rawText, Std.ExtTreeMap.getElem?_eq_none hnot] at hp
  cases hp

end Sheet

namespace Session
open CellStore Relation

/-- Whatever is recorded was a reference of the texts at some moment of the run. -/
theorem exists_refers_of_precedes (columns : Int) (limit : Nat) (moves : List Move) {a b : CellKey}
    (h : ((start (Sheet.unguarded columns limit)).after moves).store.graph.Precedes a b) :
    ∃ n ≤ moves.length,
      ((start (Sheet.unguarded columns limit)).after (moves.take n)).store.Refers b a := by
  induction moves using List.reverseRecOn with
  | nil =>
    have hempty : (start (Sheet.unguarded columns limit)).store.graph.readers a = [] :=
      DependencyGraph.empty_readers a
    rw [after_nil, DependencyGraph.Precedes, hempty] at h
    cases h
  | append_singleton moves move ih =>
    generalize hs : start (Sheet.unguarded columns limit) = s at *
    have hstep : (s.after moves).store.graph.InStep :=
      Sheet.inStep_kept.after (hs ▸ DependencyGraph.inStep_empty)
        (obeys_of_forall (fun _ _ => trivial) s moves)
    have hearlier : (s.after moves).store.graph.Precedes a b →
        ∃ n ≤ (moves ++ [move]).length, (s.after ((moves ++ [move]).take n)).store.Refers b a := by
      intro hold
      obtain ⟨n, hn, hrefers⟩ := ih hold
      refine ⟨n, by simp; omega, ?_⟩
      rwa [List.take_append_of_le_length hn]
    rw [after_concat] at h
    rcases (s.after moves).move_store_cases move with hsame | ⟨command, _, hstore⟩
    · rw [hsame] at h
      exact hearlier h
    · rw [hstore] at h
      rcases Sheet.operate_precedes hstep h with hold | hrefers
      · exact hearlier hold
      · refine ⟨(moves ++ [move]).length, Nat.le_refl _, ?_⟩
        rw [List.take_length, after_concat, hstore]
        exact hrefers

/-- In every state of an unguarded run whose chains of readers fit the depth, an edit fails as circular
exactly when its cell leads into a recorded cycle. Each recorded reading was a reference of the texts at
some moment. If the texts have no cycle after the edit, then a reading on the recorded cycle is outdated:
the text of its reader does not refer to the cell any longer. -/
theorem unguarded_edit_circular (columns : Int) (limit : Nat) (moves : List Move) :
    let s := ((start (Sheet.unguarded columns limit)).after moves).store
    ∀ (key : CellKey) (text : Text), s.hasColumn key.col → s.graph.ChainsWithin limit →
      ((s.edit key text).1 = .error .circular ↔ s.graph.Cyclic key) ∧
      (∀ a b, s.graph.Precedes a b → ∃ n ≤ moves.length,
        ((start (Sheet.unguarded columns limit)).after (moves.take n)).store.Refers b a) ∧
      (s.graph.Cyclic key → (∃ c, TransGen (s.edit key text).2.Refers c c) ∨
        ∃ a b, s.graph.Reaches key a ∧ s.graph.Precedes a b ∧ s.graph.Reaches b a ∧
          ¬(s.edit key text).2.Refers b a) := by
  intro s key text hcol hc
  have hset : s.settings = (columns, false, limit) :=
    (Sheet.settings_kept _).after rfl (obeys_of_forall (fun _ _ => trivial) _ moves)
  have hguard : s.guarded = false := Sheet.guarded_of_settings hset
  have hlimit : s.depthLimit = limit := Sheet.depthLimit_of_settings hset
  refine ⟨Sheet.edit_circular_iff hguard (hlimit ▸ hc) hcol text, ?_, ?_⟩
  · intro a b hab
    exact exists_refers_of_precedes columns limit moves hab
  · rintro ⟨c, hreach, hcycle⟩
    by_cases hlinks : ∀ a b, s.graph.Reaches key a → s.graph.Precedes a b → s.graph.Reaches b a →
        (s.edit key text).2.Refers b a
    · exact Or.inl ⟨c, Sheet.transGen_refers hreach hlinks hcycle ReflTransGen.refl⟩
    · push Not at hlinks
      exact Or.inr hlinks

/-- A formula is read and then overwritten by a number before its cell is referred to in turn. -/
def outdatedMoves : List Move :=
  [.perform (.edit ⟨1, 0⟩ ['=', 'B', '1']), .perform (.read ⟨1, 0⟩),
    .perform (.edit ⟨1, 0⟩ ['5']), .perform (.edit ⟨1, 1⟩ ['=', 'A', '1']), .perform (.read ⟨1, 1⟩)]

theorem unguarded_edit_circular_outdated :
    let s := ((start (Sheet.unguarded 3 1000)).after outdatedMoves).store
    s.hasColumn 0 ∧ s.graph.ChainsWithin 1000 ∧
    ((s.edit ⟨1, 0⟩ ['6']).1 = .error .circular ↔ s.graph.Cyclic ⟨1, 0⟩) ∧
    (s.graph.Cyclic ⟨1, 0⟩ → (∃ c, TransGen (s.edit ⟨1, 0⟩ ['6']).2.Refers c c) ∨
      ∃ a b, s.graph.Reaches ⟨1, 0⟩ a ∧ s.graph.Precedes a b ∧ s.graph.Reaches b a ∧
        ¬(s.edit ⟨1, 0⟩ ['6']).2.Refers b a) := by
  intro s
  have hcol : s.hasColumn 0 := by decide +kernel
  have hc : s.graph.ChainsWithin 1000 := DependencyGraph.chainsWithin_of_keys (by decide +kernel)
  have hall := unguarded_edit_circular 3 1000 outdatedMoves ⟨1, 0⟩ ['6'] hcol hc
  exact ⟨hcol, hc, hall.1, hall.2.2⟩

/-- The edit of a number fails as circular, and the only formula left refers to that number. -/
theorem circular_without_cycle :
    let s := ((start (Sheet.unguarded 3 1000)).after outdatedMoves).store
    (s.edit ⟨1, 0⟩ ['6']).1 = .error .circular ∧
      ¬∃ c, TransGen (s.edit ⟨1, 0⟩ ['6']).2.Refers c c := by
  intro s
  constructor
  · decide +kernel
  have hkeys : (s.edit ⟨1, 0⟩ ['6']).2.raw.keys = [⟨1, 0⟩, ⟨1, 1⟩] := by decide +kernel
  have hnumber : ∀ b, ¬(s.edit ⟨1, 0⟩ ['6']).2.Refers ⟨1, 0⟩ b := by
    rintro b ⟨formula, hp, _⟩
    have hnone : Formula.parse ((s.edit ⟨1, 0⟩ ['6']).2.rawText ⟨1, 0⟩) = none := by decide +kernel
    rw [hnone] at hp
    cases hp
  have hreader : ∀ a b, (s.edit ⟨1, 0⟩ ['6']).2.Refers a b → a = ⟨1, 1⟩ := by
    intro a b hab
    have ha := hab.mem_keys
    simp only [hkeys, List.mem_cons, List.not_mem_nil, or_false] at ha
    rcases ha with rfl | rfl
    · exact absurd hab (hnumber b)
    · rfl
  have htarget : ∀ b, (s.edit ⟨1, 0⟩ ['6']).2.Refers ⟨1, 1⟩ b → b = ⟨1, 0⟩ := by
    rintro b ⟨formula, hp, hb⟩
    have hcells : (Formula.parse ((s.edit ⟨1, 0⟩ ['6']).2.rawText ⟨1, 1⟩)).map
        Formula.references = some [⟨1, 0⟩] := by decide +kernel
    rw [hp] at hcells
    rw [Option.some.inj hcells] at hb
    exact List.mem_singleton.mp hb
  rintro ⟨c, hcycle⟩
  obtain ⟨b, hcb, hbc⟩ := TransGen.head'_iff.mp hcycle
  obtain rfl := hreader c b hcb
  obtain rfl := htarget b hcb
  rcases ReflTransGen.cases_head hbc with heq | ⟨d, hd, _⟩
  · exact absurd heq (by decide)
  · exact hnumber d hd

end Session

end FormulaGrid
