import FormulaGrid.CellKey
import FormulaGrid.IntegerText

/-!
# Settings

The size of the grid, how many rows a batch has by default, and whether cascades are guarded, as the
environment gives them.
-/
namespace FormulaGrid

structure Settings where
  rows : Int
  columns : Int
  batch : Int
  guarded : Bool
  deriving DecidableEq, Repr

/-- The texts of the variables that are set. -/
abbrev Environment := List (String × Text)

namespace Settings

def integer (env : Environment) (name : String) (default : Int) : Except Fault Int :=
  match env.lookup name with
  | none => .ok default
  | some t =>
    match IntegerText.read? t with
    | some n => .ok n
    | none => .error .notAnInteger

def flag (env : Environment) (name : String) : Bool :=
  (env.lookup name).any fun t => t.map Char.toLower = "true".toList

def ofEnvironment (env : Environment) : Except Fault Settings := do
  let rows ← integer env "GRID_TOTAL_ROWS" 1000000
  let columns ← integer env "GRID_TOTAL_COLUMNS" 10
  let batch ← integer env "GRID_BATCH_SIZE" 50
  return ⟨rows, columns, batch, flag env "GRID_CYCLE_GUARD"⟩

/-- Whether a cell lies in the grid. -/
def contains (s : Settings) (key : CellKey) : Bool :=
  1 ≤ key.row && key.row ≤ s.rows && 0 ≤ key.col && key.col < s.columns

end Settings

end FormulaGrid
