import FormulaGrid.Proofs.GraphLockstep
import Mathlib.Data.List.Induction

/-!
# Last records

What a dependency graph says after any changes is what the last records of its cells say: those that no
later record of the same cell and no later clearing has made void. The order of the readers of a cell is
the order of these records.
-/
namespace FormulaGrid.DependencyGraph

inductive Change where
  | record (key : CellKey) (cells : List CellKey)
  | clear

def change (g : DependencyGraph) : Change → DependencyGraph
  | .record key cells => g.record key cells
  | .clear => empty

def changeAll (g : DependencyGraph) (changes : List Change) : DependencyGraph :=
  changes.foldl change g

/-- Whether a change makes earlier records of a cell void. -/
def Change.supersedes (key : CellKey) : Change → Bool
  | .record other _ => key == other
  | .clear => true

def Change.recorded : Change → List (CellKey × List CellKey)
  | .record key cells => [(key, cells)]
  | .clear => []

/-- The records that no later change makes void, each with its cell, in the order they were made. -/
def lastRecords : List Change → List (CellKey × List CellKey)
  | [] => []
  | first :: later =>
    (first.recorded.filter fun entry => !later.any (·.supersedes entry.1)) ++ lastRecords later

variable {g : DependencyGraph} {reverse : CellMap (List CellKey)} {reader cell d : CellKey}
  {cells : List CellKey} {records : List (CellKey × List CellKey)}

theorem lastRecords_concat (changes : List Change) (last : Change) :
    lastRecords (changes ++ [last]) =
      (lastRecords changes).filter (fun entry => !last.supersedes entry.1) ++ last.recorded := by
  induction changes with
  | nil => simp [lastRecords]
  | cons first later ih =>
    simp only [List.cons_append, lastRecords, ih, List.filter_append, List.filter_filter,
      List.any_append, List.any_cons, List.any_nil, Bool.or_false, Bool.not_or, List.append_assoc]
    simp only [Bool.and_comm]

/-- No list of readers in an index is empty. -/
def Filled (reverse : CellMap (List CellKey)) : Prop :=
  ∀ cell : CellKey, reverse[cell]? ≠ some []

theorem filled_dropReader (h : Filled reverse) : Filled (dropReader reader reverse cell) := by
  intro d
  have hold := h d
  unfold dropReader
  split
  · exact hold
  · rename_i readers _
    by_cases he : readers.erase reader = []
    · by_cases hd : d = cell
      · simp [he, hd]
      · simpa [he, Std.ExtTreeMap.getElem?_erase, Ne.symm hd] using hold
    · by_cases hd : d = cell
      · simp [he, hd]
      · simpa [he, Std.ExtTreeMap.getElem?_insert, Ne.symm hd] using hold

theorem filled_addReader (h : Filled reverse) : Filled (addReader reader reverse cell) := by
  intro d
  have hold := h d
  unfold addReader
  by_cases hr : reader ∈ reverse[cell]?.getD []
  · simpa [hr] using hold
  · by_cases hd : d = cell
    · simp [hr, hd]
    · simpa [hr, Std.ExtTreeMap.getElem?_insert, Ne.symm hd] using hold

theorem filled_record (h : Filled g.reverse) (key : CellKey) (cells : List CellKey) :
    Filled (g.record key cells).reverse := by
  have hdrop : Filled ((g.dependencies key).foldl (dropReader key) g.reverse) :=
    List.foldlRecOn _ _ h fun _ hold _ _ => filled_dropReader hold
  exact List.foldlRecOn _ _ hdrop fun _ hold _ _ => filled_addReader hold

/-- A graph that says what some records say, of which each is of another cell. -/
structure Reflects (g : DependencyGraph) (records : List (CellKey × List CellKey)) : Prop where
  inStep : g.InStep
  filled : Filled g.reverse
  forward : ∀ key : CellKey, g.forward[key]? = (records.lookup key).map List.eraseDups
  readers : ∀ d, g.readers d = (records.filter (d ∈ ·.2)).map Prod.fst

theorem reflects_empty : Reflects empty [] where
  inStep := inStep_empty
  filled := by simp [Filled, empty]
  forward := by simp [empty]
  readers := empty_readers

theorem lookup_filter_ne (records : List (CellKey × List CellKey)) (key other : CellKey) :
    (records.filter (·.1 != key)).lookup other =
      if other = key then none else records.lookup other := by
  induction records with
  | nil => simp
  | cons entry records ih =>
    obtain ⟨cell, cells⟩ := entry
    by_cases hcell : cell = key
    · subst hcell
      by_cases hother : other = cell
      · simpa [hother] using ih
      · simpa [hother, List.lookup_cons, beq_eq_false_iff_ne.mpr hother] using ih
    · by_cases hother : other = cell
      · simp [hother, hcell]
      · simp [hcell, List.lookup_cons, beq_eq_false_iff_ne.mpr hother, ih]

theorem Reflects.record (h : Reflects g records) (key : CellKey) (cells : List CellKey) :
    Reflects (g.record key cells) (records.filter (·.1 != key) ++ [(key, cells)]) where
  inStep := h.inStep.record key cells
  filled := filled_record h.filled key cells
  forward other := by
    rw [List.lookup_append, lookup_filter_ne]
    by_cases hother : other = key
    · simp [hother, DependencyGraph.record]
    · simp [hother, DependencyGraph.record, Std.ExtTreeMap.getElem?_insert, Ne.symm hother,
        h.forward, List.lookup_cons, beq_eq_false_iff_ne.mpr hother]
  readers d := by
    have hothers : ((records.filter (d ∈ ·.2)).map Prod.fst).filter (· != key) =
        ((records.filter (·.1 != key)).filter (d ∈ ·.2)).map Prod.fst := by
      rw [List.filter_map, List.filter_filter, List.filter_filter]
      simp only [Function.comp_def, Bool.and_comm]
    rw [h.inStep.readers_record, h.readers, hothers, List.filter_append, List.map_append]
    by_cases hd : d ∈ cells <;> simp [hd]

theorem Reflects.change (h : Reflects g records) (last : Change) :
    Reflects (g.change last)
      (records.filter (fun entry => !last.supersedes entry.1) ++ last.recorded) := by
  cases last with
  | record key cells => exact h.record key cells
  | clear =>
    have hnone : records.filter (fun entry => !Change.clear.supersedes entry.1) = [] := by
      simp [Change.supersedes]
    rw [hnone]
    exact reflects_empty

/-- After any changes an empty graph says what the last records say. -/
theorem reflects_lastRecords (changes : List Change) :
    Reflects (empty.changeAll changes) (lastRecords changes) := by
  induction changes using List.reverseRecOn with
  | nil => exact reflects_empty
  | append_singleton changes last ih =>
    rw [lastRecords_concat, changeAll, List.foldl_append]
    exact ih.change last

/-- After any records and clearings a cell is listed as a reader exactly where the cell that it reads is
listed for it. What is listed for a cell are the cells of its last record, each where it occurs first;
and the readers of a cell, if there are any, are listed once each, in the order of their last records. -/
theorem indexes_of_lastRecords (changes : List Change) :
    let g := empty.changeAll changes
    let records := lastRecords changes
    (∀ reader cell : CellKey, (∃ readers, g.reverse[cell]? = some readers ∧ reader ∈ readers) ↔
      ∃ cells, g.forward[reader]? = some cells ∧ cell ∈ cells) ∧
    (∀ key : CellKey, g.forward[key]? = (records.lookup key).map List.eraseDups) ∧
    (∀ cell : CellKey, g.reverse[cell]? ≠ some []) ∧
    ∀ cell, (g.readers cell).Nodup ∧
      g.readers cell = (records.filter (cell ∈ ·.2)).map Prod.fst := by
  intro g records
  have h : Reflects g records := reflects_lastRecords changes
  refine ⟨?_, h.forward, h.filled, fun cell => ⟨h.inStep.nodup cell, h.readers cell⟩⟩
  intro reader cell
  have hlisted (entry : Option (List CellKey)) (k : CellKey) :
      (∃ keys, entry = some keys ∧ k ∈ keys) ↔ k ∈ entry.getD [] := by
    cases entry <;> simp
  rw [hlisted, hlisted]
  exact h.inStep.mem_readers

end FormulaGrid.DependencyGraph
