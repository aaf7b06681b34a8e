import FormulaGrid.DependencyGraph

/-!
# Cascades of readers

When a cell changes, the results of its readers are stale, and of their readers in turn. A cascade goes
down to them one level of the stack at a time, and when it exceeds its depth limit it stops at once, so
that the readers still to come are not reached. A guarded cascade remembers the cells it has seen and
goes on from each of them once. An unguarded one remembers nothing, so a cycle takes it down to the limit.
-/
namespace FormulaGrid

structure Cascade where
  cells : List CellKey
  overflow : Bool
  deriving DecidableEq, Repr

namespace DependencyGraph

/-- Explores a list of cells one after the other, as far as the first overflow; each of them after all
that has been seen before. -/
def exploreAll (explore : List CellKey → CellKey → Cascade) : List CellKey → List CellKey → Cascade
  | seen, [] => ⟨seen, false⟩
  | seen, key :: keys =>
    let first := explore seen key
    if first.overflow then first else exploreAll explore first.cells keys

/-- Goes down from a cell to readers that have not been seen; with the cells seen then, those seen before
among them. To come back to a seen cell takes a level of the stack, too. -/
def explore (g : DependencyGraph) : Nat → List CellKey → CellKey → Cascade
  | 0, seen, _ => ⟨seen, true⟩
  | depth + 1, seen, key =>
    if key ∈ seen then ⟨seen, false⟩
    else exploreAll (g.explore depth) (key :: seen) (g.readers key)

/-- Follows a list of cells down one after the other, as far as the first overflow. -/
def followAll (follow : CellKey → Cascade) : List CellKey → Cascade
  | [] => ⟨[], false⟩
  | key :: keys =>
    let first := follow key
    if first.overflow then first
    else
      let others := followAll follow keys
      ⟨first.cells ++ others.cells, others.overflow⟩

/-- Follows a cell and its readers down to a depth. -/
def follow (g : DependencyGraph) : Nat → CellKey → Cascade
  | 0, _ => ⟨[], true⟩
  | depth + 1, key =>
    let below := followAll (g.follow depth) (g.readers key)
    ⟨key :: below.cells, below.overflow⟩

def cascade (g : DependencyGraph) (guarded : Bool) (depthLimit : Nat) (key : CellKey) : Cascade :=
  if guarded then g.explore depthLimit [] key else g.follow depthLimit key

end DependencyGraph

end FormulaGrid
