import FormulaGrid.CellKey

/-!
# Dependencies

For each formula cell the graph keeps the cells that its last evaluation read, and for each cell its
readers in the order in which they were last recorded. A cell without readers has no entry of them.
-/
namespace FormulaGrid

structure DependencyGraph where
  forward : CellMap (List CellKey)
  reverse : CellMap (List CellKey)

namespace DependencyGraph

def empty : DependencyGraph := ⟨∅, ∅⟩

def dependencies (g : DependencyGraph) (key : CellKey) : List CellKey := g.forward[key]?.getD []

def readers (g : DependencyGraph) (key : CellKey) : List CellKey := g.reverse[key]?.getD []

def dropReader (reader : CellKey) (reverse : CellMap (List CellKey)) (cell : CellKey) :
    CellMap (List CellKey) :=
  match reverse[cell]? with
  | none => reverse
  | some readers =>
    let others := readers.erase reader
    if others.isEmpty then reverse.erase cell else reverse.insert cell others

def addReader (reader : CellKey) (reverse : CellMap (List CellKey)) (cell : CellKey) :
    CellMap (List CellKey) :=
  let readers := reverse[cell]?.getD []
  if reader ∈ readers then reverse else reverse.insert cell (readers ++ [reader])

/-- Replaces all that was recorded for a cell. -/
def record (g : DependencyGraph) (key : CellKey) (cells : List CellKey) : DependencyGraph :=
  let cells := cells.eraseDups
  let reverse := (g.dependencies key).foldl (dropReader key) g.reverse
  ⟨g.forward.insert key cells, cells.foldl (addReader key) reverse⟩

theorem empty_dependencies (key : CellKey) : empty.dependencies key = [] := by
  simp [empty, dependencies]

theorem empty_readers (key : CellKey) : empty.readers key = [] := by
  simp [empty, readers]

theorem record_dependencies (g : DependencyGraph) (key other : CellKey) (cells : List CellKey) :
    (g.record key cells).dependencies other =
      if other = key then cells.eraseDups else g.dependencies other := by
  by_cases h : other = key
  · simp [record, dependencies, h]
  · simp [record, dependencies, Std.ExtTreeMap.getElem?_insert, h, Ne.symm h]

end DependencyGraph

end FormulaGrid
