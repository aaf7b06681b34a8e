import FormulaGrid.Sheet

/-!
# Cell stores

What a session asks of whatever keeps its cells. Every operation answers with its outcome and the
store that it leaves. A sheet is one such store.
-/
namespace FormulaGrid

class CellStore (σ : Type) where
  columns : σ → Int
  rawText : σ → CellKey → Text
  cached : σ → CellKey → Option Text
  dependencies : σ → CellKey → List CellKey
  read : σ → CellKey → Except Fault Text × σ
  edit : σ → CellKey → Text → Except Fault Unit × σ
  invalidate : σ → CellKey → Except Fault Unit × σ
  fill : σ → CellKey → CellKey → Except Fault (List CellKey) × σ
  clear : σ → σ

instance : CellStore Sheet where
  columns := Sheet.columns
  rawText := Sheet.rawText
  cached := Sheet.cached
  dependencies := Sheet.dependencies
  read := Sheet.read
  edit := Sheet.edit
  invalidate := Sheet.invalidate
  fill := Sheet.fill
  clear := Sheet.clear

namespace Sheet

variable (s : Sheet) (key source target : CellKey)

theorem cellStore_rawText : CellStore.rawText s key = s.rawText key := rfl

theorem cellStore_read : CellStore.read s key = s.read key := rfl

theorem cellStore_edit (text : Text) : CellStore.edit s key text = s.edit key text := rfl

theorem cellStore_fill : CellStore.fill s source target = s.fill source target := rfl

end Sheet

namespace CellStore

variable {σ : Type} [CellStore σ]

def readAll (store : σ) : List CellKey → Except Fault (List Text) × σ
  | [] => (.ok [], store)
  | key :: keys =>
    match read store key with
    | (.error fault, store) => (.error fault, store)
    | (.ok text, store) =>
      match readAll store keys with
      | (.error fault, store) => (.error fault, store)
      | (.ok texts, store) => (.ok (text :: texts), store)

def rowKeys (columns row : Int) : List CellKey :=
  (List.range columns.toNat).map fun (col : Nat) => ⟨row, col⟩

/-- Reads every column of each row. -/
def renderRows (store : σ) : List Int → Except Fault (List (List Text)) × σ
  | [] => (.ok [], store)
  | row :: rows =>
    match readAll store (rowKeys (columns store) row) with
    | (.error fault, store) => (.error fault, store)
    | (.ok texts, store) =>
      match renderRows store rows with
      | (.error fault, store) => (.error fault, store)
      | (.ok table, store) => (.ok (texts :: table), store)

end CellStore

end FormulaGrid
