import Std.Data.ExtTreeMap

/-!
# Cell keys

A key is a row and a column. Rows are as written in a reference, so the first is 1; columns start at
0. Keys are ordered by row and then by column, and maps over keys are compared by their entries.
-/
namespace FormulaGrid

structure CellKey where
  row : Int
  col : Int
  deriving DecidableEq, Repr

namespace CellKey

instance : Ord CellKey := ⟨compareLex (compareOn row) (compareOn col)⟩

instance : Std.TransOrd CellKey :=
  inferInstanceAs (Std.TransCmp (compareLex (compareOn row) (compareOn col)))

instance : Std.LawfulEqOrd CellKey where
  eq_of_compare {a b} h := by
    obtain ⟨hr, hc⟩ := compareLex_eq_eq.mp h
    have hr : a.row = b.row := Std.LawfulEqOrd.eq_of_compare hr
    have hc : a.col = b.col := Std.LawfulEqOrd.eq_of_compare hc
    cases a; cases b; simp_all

def shift (key : CellKey) (rows cols : Int) : CellKey := ⟨key.row + rows, key.col + cols⟩

/-- The integers from the smaller to the larger of two, both included. -/
def span (a b : Int) : List Int :=
  (List.range (max a b - min a b + 1).toNat).map fun (i : Nat) => min a b + i

/-- The rectangle that two keys span, row by row. -/
def rectangle (a b : CellKey) : List CellKey :=
  (span a.row b.row).flatMap fun row => (span a.col b.col).map fun col => ⟨row, col⟩

theorem mem_span {a b i : Int} : i ∈ span a b ↔ min a b ≤ i ∧ i ≤ max a b := by
  simp only [span, List.mem_map, List.mem_range]
  constructor
  · rintro ⟨n, hn, rfl⟩
    omega
  · intro h
    exact ⟨(i - min a b).toNat, by omega, by omega⟩

theorem mem_rectangle {a b key : CellKey} :
    key ∈ rectangle a b ↔ key.row ∈ span a.row b.row ∧ key.col ∈ span a.col b.col := by
  simp only [rectangle, List.mem_flatMap, List.mem_map]
  constructor
  · rintro ⟨row, hr, col, hc, rfl⟩
    exact ⟨hr, hc⟩
  · intro h
    exact ⟨key.row, h.1, key.col, h.2, rfl⟩

end CellKey

abbrev CellMap (α : Type) := Std.ExtTreeMap CellKey α

end FormulaGrid
