import FormulaGrid.Proofs.CascadeReach
import FormulaGrid.Proofs.GraphLockstep
import FormulaGrid.Proofs.PlainSheet
import FormulaGrid.Proofs.ReadingFrame

/-!
# Exact results

A sheet is sound when every result it keeps is what the formula of its cell evaluates to now and what
that depends on is recorded, with both indexes of the graph in step. Evaluations keep a sheet sound, and
so does writing cells, as long as no result outlives the change of a cell it depends on. With the guard
nothing does.
-/
namespace FormulaGrid

theorem eraseDups_of_nodup {cells : List CellKey} (h : cells.Nodup) : cells.eraseDups = cells := by
  induction cells with
  | nil => rfl
  | cons cell cells ih =>
    obtain ⟨hcell, hcells⟩ := List.nodup_cons.mp h
    have hfilter : cells.filter (fun other => !other == cell) = cells := by
      apply List.filter_eq_self.mpr
      intro other hother
      have hne : other ≠ cell := fun heq => hcell (heq ▸ hother)
      simp [hne]
    rw [List.eraseDups_cons, hfilter, ih hcells]

namespace Sheet

variable {s s' : Sheet} {key k : CellKey} {keys : List CellKey} {text : Text} {formula : Formula}
  {e : Evaluated}

/-- A result is exact if the formula of the cell evaluates to it, and the cells read by that are the
ones recorded, in this order. -/
structure Exact (s : Sheet) (key : CellKey) (text : Text) : Prop where
  ne_nil : text ≠ []
  evaluated : ∃ formula, Formula.parse (s.rawText key) = some formula ∧
    formula.evaluate s.rawText = .ok ⟨text, s.dependencies key⟩
  recorded : s.graph.forward[key]? = some (s.dependencies key)

structure Sound (s : Sheet) : Prop where
  inStep : s.graph.InStep
  results : ∀ {key text}, s.computed[key]? = some text → s.Exact key text

/-- Without results a sheet is sound as soon as its graph is in step. -/
theorem sound_of_none (hg : s.graph.InStep) (h : ∀ key : CellKey, s.computed[key]? = none) : s.Sound where
  inStep := hg
  results {key text} hk := by
    rw [h] at hk
    cases hk

theorem sound_clear (s : Sheet) : s.clear.Sound :=
  sound_of_none DependencyGraph.inStep_empty fun _ => Std.ExtTreeMap.getElem?_empty

theorem memoize_dependencies (s : Sheet) (key k : CellKey) (e : Evaluated) :
    (s.memoize key e).dependencies k =
      if k = key then e.dependencies.eraseDups else s.dependencies k :=
  s.graph.record_dependencies key k e.dependencies

theorem memoize_forward (s : Sheet) (key k : CellKey) (e : Evaluated) :
    (s.memoize key e).graph.forward[k]? =
      if k = key then some e.dependencies.eraseDups else s.graph.forward[k]? := by
  by_cases hk : k = key
  · simp [memoize, DependencyGraph.record, hk]
  · simp [memoize, DependencyGraph.record, Std.ExtTreeMap.getElem?_insert, hk, Ne.symm hk]

theorem memoize_computed (s : Sheet) (key k : CellKey) (e : Evaluated) :
    (s.memoize key e).computed[k]? = if k = key then some e.text else s.computed[k]? := by
  by_cases hk : k = key
  · simp [memoize, hk]
  · simp [memoize, Std.ExtTreeMap.getElem?_insert, hk, Ne.symm hk]

theorem exact_memoize (hp : Formula.parse (s.rawText key) = some formula)
    (he : formula.evaluate s.rawText = .ok e) : (s.memoize key e).Exact key e.text := by
  have hdups : e.dependencies.eraseDups = e.dependencies :=
    eraseDups_of_nodup (Formula.evaluate_nodup hp he)
  have hdeps : (s.memoize key e).dependencies key = e.dependencies := by
    rw [memoize_dependencies, if_pos rfl, hdups]
  refine ⟨Formula.evaluate_text_ne_nil hp he, ⟨formula, hp, ?_⟩, ?_⟩
  · rw [hdeps]
    exact he
  · rw [hdeps, memoize_forward, if_pos rfl, hdups]

/-- An evaluation leaves the results of other cells exact, since it leaves what is recorded for them. -/
theorem Exact.memoize (h : s.Exact k text) (hne : k ≠ key) (e : Evaluated) :
    (s.memoize key e).Exact k text := by
  have hdeps : (s.memoize key e).dependencies k = s.dependencies k := by
    rw [memoize_dependencies, if_neg hne]
  refine ⟨h.ne_nil, ?_, ?_⟩
  · rw [hdeps]
    exact h.evaluated
  · rw [hdeps, memoize_forward, if_neg hne]
    exact h.recorded

theorem Sound.memoize (hs : s.Sound) (hp : Formula.parse (s.rawText key) = some formula)
    (he : formula.evaluate s.rawText = .ok e) : (s.memoize key e).Sound where
  inStep := hs.inStep.record key e.dependencies
  results := by
    intro k text hk
    rw [memoize_computed] at hk
    by_cases hne : k = key
    · rw [if_pos hne] at hk
      obtain rfl := Option.some.inj hk
      rw [hne]
      exact exact_memoize hp he
    · rw [if_neg hne] at hk
      exact (hs.results hk).memoize hne e

/-- A reading changes nothing or memoizes an evaluation. -/
theorem read_cases (s : Sheet) (key : CellKey) :
    (s.read key).2 = s ∨ ∃ formula e, Formula.parse (s.rawText key) = some formula ∧
      formula.evaluate s.rawText = .ok e ∧ (s.read key).2 = s.memoize key e := by
  have heval : (s.evaluateCell key).2 = s ∨ ∃ formula e,
      Formula.parse (s.rawText key) = some formula ∧ formula.evaluate s.rawText = .ok e ∧
        (s.evaluateCell key).2 = s.memoize key e := by
    unfold evaluateCell
    split
    · exact Or.inl rfl
    · rename_i formula hp
      split
      · rename_i e he
        exact Or.inr ⟨formula, e, hp, he, rfl⟩
      · exact Or.inl rfl
      · exact Or.inl rfl
  unfold Sheet.read
  split
  · exact heval
  · exact heval
  · exact Or.inl rfl

theorem Sound.read (hs : s.Sound) (key : CellKey) : (s.read key).2.Sound := by
  rcases s.read_cases key with h | ⟨formula, e, hp, he, h⟩
  · rw [h]
    exact hs
  · rw [h]
    exact hs.memoize hp he

/-- A cell whose result is exact, or that has none, displays what it does on a plain sheet. -/
theorem read_shown (h : ∀ text, s.computed[key]? = some text → s.Exact key text) :
    (s.read key).1 = s.forget.shown key := by
  unfold Sheet.read
  split
  · exact s.evaluateCell_shown key
  · exact s.evaluateCell_shown key
  · rename_i text _ hcached
    obtain ⟨_, ⟨formula, hp, he⟩, _⟩ := h text hcached
    simp [PlainSheet.shown, forget_rawText, hp, he]

theorem Sound.read_shown (hs : s.Sound) (key : CellKey) : (s.read key).1 = s.forget.shown key :=
  Sheet.read_shown fun _ h => hs.results h

/-- What no operation changes. -/
def settings (s : Sheet) : Int × Bool × Nat := (s.columns, s.guarded, s.depthLimit)

theorem guarded_of_settings {columns : Int} {guarded : Bool} {limit : Nat}
    (h : s.settings = (columns, guarded, limit)) : s.guarded = guarded :=
  congrArg (fun p => p.2.1) h

theorem depthLimit_of_settings {columns : Int} {guarded : Bool} {limit : Nat}
    (h : s.settings = (columns, guarded, limit)) : s.depthLimit = limit :=
  congrArg (fun p => p.2.2) h

theorem read_settings (s : Sheet) (key : CellKey) : (s.read key).2.settings = s.settings := by
  rcases s.read_cases key with h | ⟨_, e, _, _, h⟩ <;> rw [h]
  rfl

/-- Only certain cells were written, and no result or dependency was added. -/
structure Wrote (keys : List CellKey) (s s' : Sheet) : Prop where
  settings : s'.settings = s.settings
  graph : s'.graph = s.graph
  rawText : ∀ k, k ∉ keys → s'.rawText k = s.rawText k
  kept : ∀ {k : CellKey} {text}, s'.computed[k]? = some text → s.computed[k]? = some text

/-- No result is left of a written cell or of a recorded reader of one. -/
structure Overwrote (keys : List CellKey) (s s' : Sheet) : Prop extends Wrote keys s s' where
  cleared : ∀ {k : CellKey} {text}, s'.computed[k]? = some text →
    k ∉ keys ∧ ∀ cell ∈ keys, k ∉ s.graph.readers cell

/-- A result stays exact when neither its cell nor any cell that it depends on is written. -/
theorem Exact.write (h : s.Exact k text) (hg : s.graph.InStep) (hw : Wrote keys s s')
    (hkeys : k ∉ keys) (hreads : ∀ cell ∈ keys, k ∉ s.graph.readers cell) : s'.Exact k text := by
  obtain ⟨hne, ⟨formula, hp, he⟩, hforward⟩ := h
  have hdeps : s'.dependencies k = s.dependencies k := by
    simp [Sheet.dependencies, hw.graph]
  have hsame : ∀ cell ∈ s.dependencies k, s'.rawText cell = s.rawText cell := by
    intro cell hcell
    apply hw.rawText
    intro hwritten
    exact hreads cell hwritten (hg.mem_readers.mpr hcell)
  refine ⟨hne, ⟨formula, ?_, ?_⟩, ?_⟩
  · rw [hw.rawText k hkeys]
    exact hp
  · rw [hdeps]
    exact Formula.evaluate_congr hp he hsame
  · rw [hdeps, hw.graph]
    exact hforward

theorem Sound.overwrite (hs : s.Sound) (h : Overwrote keys s s') : s'.Sound where
  inStep := h.graph ▸ hs.inStep
  results := by
    intro k text hk
    obtain ⟨hkeys, hreads⟩ := h.cleared hk
    exact (hs.results (h.kept hk)).write hs.inStep h.toWrote hkeys hreads

end Sheet

end FormulaGrid
