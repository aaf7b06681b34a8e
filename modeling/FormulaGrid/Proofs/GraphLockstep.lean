import FormulaGrid.DependencyGraph

/-!
# Dependencies and readers in step

Both indexes of a dependency graph say the same: a cell lists a reader exactly when the reader depends
on the cell. Recording keeps them so, whatever was recorded before.
-/
namespace FormulaGrid.DependencyGraph

/-- Every reader of a cell depends on it and the other way round, and no reader is listed twice. -/
structure InStep (g : DependencyGraph) : Prop where
  nodup : ∀ cell, (g.readers cell).Nodup
  mem_readers : ∀ {reader cell}, reader ∈ g.readers cell ↔ cell ∈ g.dependencies reader

def readersIn (reverse : CellMap (List CellKey)) (cell : CellKey) : List CellKey :=
  reverse[cell]?.getD []

variable {reverse : CellMap (List CellKey)} {reader k cell d : CellKey} {cells : List CellKey}

theorem readersIn_dropReader :
    readersIn (dropReader reader reverse cell) d =
      if d = cell then (readersIn reverse cell).erase reader else readersIn reverse d := by
  unfold dropReader readersIn
  cases h : reverse[cell]? with
  | none =>
    by_cases hd : d = cell
    · simp [hd, h]
    · simp [hd]
  | some readers =>
    by_cases he : readers.erase reader = []
    · by_cases hd : d = cell
      · simp [he, hd]
      · simp [he, hd, Std.ExtTreeMap.getElem?_erase, Ne.symm hd]
    · by_cases hd : d = cell
      · simp [he, hd]
      · simp [he, hd, Std.ExtTreeMap.getElem?_insert, Ne.symm hd]

theorem readersIn_addReader :
    readersIn (addReader reader reverse cell) d =
      if d = cell ∧ reader ∉ readersIn reverse cell then readersIn reverse cell ++ [reader]
      else readersIn reverse d := by
  unfold addReader readersIn
  by_cases hr : reader ∈ reverse[cell]?.getD []
  · simp [hr]
  · by_cases hd : d = cell
    · simp [hr, hd]
    · simp [hr, hd, Std.ExtTreeMap.getElem?_insert, Ne.symm hd]

theorem nodup_dropReader (h : ∀ d, (readersIn reverse d).Nodup) (d : CellKey) :
    (readersIn (dropReader reader reverse cell) d).Nodup := by
  rw [readersIn_dropReader]
  split
  · exact (h cell).erase reader
  · exact h d

/-- Dropping a reader from some cells leaves the others in their order. -/
theorem readersIn_foldl_dropReader (h : ∀ d, (readersIn reverse d).Nodup) :
    readersIn (cells.foldl (dropReader reader) reverse) d =
      if d ∈ cells then (readersIn reverse d).erase reader else readersIn reverse d := by
  induction cells generalizing reverse with
  | nil => simp
  | cons cell cells ih =>
    rw [List.foldl_cons, ih (nodup_dropReader h), readersIn_dropReader]
    by_cases hd : d = cell
    · subst hd
      have hgone : reader ∉ (readersIn reverse d).erase reader := (h d).not_mem_erase
      simp [List.erase_of_not_mem hgone]
    · simp [hd]

theorem readersIn_foldl_addReader :
    readersIn (cells.foldl (addReader reader) reverse) d =
      if d ∈ cells ∧ reader ∉ readersIn reverse d then readersIn reverse d ++ [reader]
      else readersIn reverse d := by
  induction cells generalizing reverse with
  | nil => simp
  | cons cell cells ih =>
    rw [List.foldl_cons, ih, readersIn_addReader]
    by_cases hd : d = cell
    · subst hd
      by_cases hr : reader ∈ readersIn reverse d <;> simp [hr]
    · simp [hd]

variable {g : DependencyGraph}

theorem inStep_empty : empty.InStep where
  nodup cell := by simp [empty_readers]
  mem_readers := by simp [empty_readers, empty_dependencies]

/-- Recording takes a cell out of the readers of every cell and puts it last among those of the cells
that it has read. -/
theorem InStep.readers_record (h : g.InStep) (key d : CellKey) (cells : List CellKey) :
    (g.record key cells).readers d =
      (g.readers d).filter (· != key) ++ if d ∈ cells then [key] else [] := by
  let dropped := (g.dependencies key).foldl (dropReader key) g.reverse
  have hdropped : readersIn dropped d = (g.readers d).filter (· != key) := by
    have hold : readersIn g.reverse d = g.readers d := rfl
    rw [readersIn_foldl_dropReader h.nodup, hold, ← (h.nodup d).erase_eq_filter]
    split
    · rfl
    · rename_i hd
      rw [List.erase_of_not_mem fun hkey => hd (h.mem_readers.mp hkey)]
  have hreaders : (g.record key cells).readers d =
      readersIn (cells.eraseDups.foldl (addReader key) dropped) d := rfl
  rw [hreaders, readersIn_foldl_addReader, hdropped]
  by_cases hd : d ∈ cells <;> simp [hd]

theorem InStep.nodup_readers_record (h : g.InStep) (key d : CellKey) (cells : List CellKey) :
    ((g.record key cells).readers d).Nodup := by
  rw [h.readers_record]
  have hothers : ((g.readers d).filter (· != key)).Nodup := (h.nodup d).filter _
  by_cases hd : d ∈ cells
  · rw [if_pos hd, List.nodup_append]
    refine ⟨hothers, by simp, ?_⟩
    intro k hk other hother
    rw [List.mem_singleton.mp hother]
    exact bne_iff_ne.mp (List.mem_filter.mp hk).2
  · rwa [if_neg hd, List.append_nil]

/-- Recording replaces what a cell reads and leaves the other readers of every cell alone. -/
theorem InStep.mem_readers_record (h : g.InStep) {key : CellKey} :
    k ∈ (g.record key cells).readers d ↔
      (k = key ∧ d ∈ cells) ∨ (k ≠ key ∧ k ∈ g.readers d) := by
  rw [h.readers_record, List.mem_append, List.mem_filter, bne_iff_ne, and_comm, or_comm]
  by_cases hd : d ∈ cells <;> simp [hd]

theorem InStep.record (h : g.InStep) (key : CellKey) (cells : List CellKey) :
    (g.record key cells).InStep where
  nodup d := h.nodup_readers_record key d cells
  mem_readers := by
    intro k d
    rw [h.mem_readers_record, record_dependencies]
    by_cases hk : k = key
    · simp [hk, List.mem_eraseDups]
    · simp [hk, h.mem_readers]

end FormulaGrid.DependencyGraph
