import FormulaGrid.Cascade
import FormulaGrid.Evaluation
import FormulaGrid.RefShift

/-!
# Sheets

A sheet keeps the raw texts of its cells, the results of formulas read before, and the dependency
graph of those results. Each operation answers with its outcome and the sheet that it leaves, which
on a fault holds whatever had been done by then.
-/
namespace FormulaGrid

structure Sheet where
  columns : Int
  guarded : Bool
  /-- how deep a cascade may go -/
  depthLimit : Nat
  raw : CellMap Text
  computed : CellMap Text
  graph : DependencyGraph

namespace Sheet

def empty (columns : Int) (guarded : Bool) : Sheet :=
  ⟨columns, guarded, 1000, ∅, ∅, .empty⟩

def rawText (s : Sheet) (key : CellKey) : Text := s.raw[key]?.getD []

def cached (s : Sheet) (key : CellKey) : Option Text := s.computed[key]?

def dependencies (s : Sheet) (key : CellKey) : List CellKey := s.graph.dependencies key

/-- Keeps the result of an evaluation and the cells it read. -/
def memoize (s : Sheet) (key : CellKey) (e : Evaluated) : Sheet :=
  { s with graph := s.graph.record key e.dependencies, computed := s.computed.insert key e.text }

def evaluateCell (s : Sheet) (key : CellKey) : Except Fault Text × Sheet :=
  match Formula.parse (s.rawText key) with
  | none => (.ok (s.rawText key), s)
  | some formula =>
    match formula.evaluate s.rawText with
    | .ok e => (.ok e.text, s.memoize key e)
    | .error (.formula e) => (.ok e.display, s)
    | .error fault => (.error fault, s)

/-- The text a cell displays; an empty result is as good as none. -/
def read (s : Sheet) (key : CellKey) : Except Fault Text × Sheet :=
  match s.cached key with
  | none | some [] => s.evaluateCell key
  | some text => (.ok text, s)

def drop (s : Sheet) (keys : List CellKey) : Sheet :=
  { s with computed := keys.foldl (fun computed key => computed.erase key) s.computed }

/-- Drops the result of a cell and those of its readers, as far as the cascade gets. -/
def invalidate (s : Sheet) (key : CellKey) : Except Fault Unit × Sheet :=
  let cascade := s.graph.cascade s.guarded s.depthLimit key
  (if cascade.overflow then .error .circular else .ok (), s.drop cascade.cells)

def invalidateAll (s : Sheet) : List CellKey → Except Fault Unit × Sheet
  | [] => (.ok (), s)
  | key :: keys =>
    match s.invalidate key with
    | (.ok _, s) => s.invalidateAll keys
    | (.error fault, s) => (.error fault, s)

def hasColumn (s : Sheet) (col : Int) : Bool := 0 ≤ col && col < s.columns

def edit (s : Sheet) (key : CellKey) (text : Text) : Except Fault Unit × Sheet :=
  if s.hasColumn key.col then
    let stored := { s with raw := s.raw.insert key text, computed := s.computed.erase key }
    stored.invalidate key
  else (.error (.columnOutOfRange key.col), s)

/-- What a fill from one cell puts into another. -/
def filledText (source key : CellKey) (text : Text) : Except Fault Text :=
  if text.isFormula then RefShift.shift text (key.row - source.row) (key.col - source.col)
  else .ok text

def writeAll (source : CellKey) (text : Text) (s : Sheet) :
    List CellKey → Except Fault Unit × Sheet
  | [] => (.ok (), s)
  | key :: keys =>
    match filledText source key text with
    | .ok filled => writeAll source text { s with raw := s.raw.insert key filled } keys
    | .error fault => (.error fault, s)

/-- Copies a cell across the rectangle it spans with another one. -/
def fillCells (s : Sheet) (source target : CellKey) : Except Fault (List CellKey) × Sheet :=
  let keys := (CellKey.rectangle source target).filter (· ≠ source)
  match writeAll source (s.rawText source) s keys with
  | (.error fault, s) => (.error fault, s)
  | (.ok _, s) =>
    match s.invalidateAll keys with
    | (.error fault, s) => (.error fault, s)
    | (.ok _, s) => (.ok keys, s)

def fill (s : Sheet) (source target : CellKey) : Except Fault (List CellKey) × Sheet :=
  if !s.hasColumn source.col then (.error (.columnOutOfRange source.col), s)
  else if !s.hasColumn target.col then (.error (.columnOutOfRange target.col), s)
  else s.fillCells source target

def clear (s : Sheet) : Sheet := { s with raw := ∅, computed := ∅, graph := .empty }

theorem rawText_empty (columns : Int) (guarded : Bool) (key : CellKey) :
    (empty columns guarded).rawText key = [] := by
  simp [empty, rawText]

theorem read_raw (s : Sheet) (key : CellKey) : (s.read key).2.raw = s.raw := by
  unfold read evaluateCell memoize
  split <;> (try split) <;> (try split) <;> rfl

end Sheet

end FormulaGrid
