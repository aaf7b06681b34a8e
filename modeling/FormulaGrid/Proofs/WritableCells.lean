import FormulaGrid.Proofs.Invalidation
import FormulaGrid.Proofs.Moves
import FormulaGrid.Proofs.ReferenceCodec
import FormulaGrid.Settings
import Mathlib.Algebra.Group.Nat.Defs

/-!
# Writable cells

The reference of a cell can be written when its row has no more digits than are converted, and reads back
as the cell. Every cell that is recorded as read has been written in some formula, so its reference can be
written; and so can that of every cell in a grid whose size was read from a text.
-/
namespace FormulaGrid
open Digits

theorem mapM_eq_ok {α β : Type} {f : α → Except Fault β} {items : List α} {results : List β} :
    items.mapM f = .ok results ↔ List.Forall₂ (fun a b => f a = .ok b) items results := by
  induction items generalizing results with
  | nil => cases results <;> simp [pure, Except.pure]
  | cons a items ih =>
    rw [List.mapM_cons]
    cases ha : f a with
    | error fault => cases results <;> simp [bind, Except.bind, ha]
    | ok b =>
      cases hitems : items.mapM f with
      | error fault => cases results <;> simp [bind, Except.bind, ha, ← ih, hitems]
      | ok others =>
        cases results <;> simp [bind, Except.bind, pure, Except.pure, ha, ← ih, hitems]

theorem exists_of_mem_mapM {α β : Type} {f : α → Except Fault β} {items : List α} {results : List β}
    {b : β} (h : items.mapM f = .ok results) (hb : b ∈ results) : ∃ a ∈ items, f a = .ok b := by
  rw [mapM_eq_ok] at h
  induction h with
  | nil => cases hb
  | @cons a _ _ _ ha _ ih =>
    rcases List.mem_cons.mp hb with rfl | hb
    · exact ⟨a, by simp, ha⟩
    · obtain ⟨other, hother, hvalue⟩ := ih hb
      exact ⟨other, by simp [hother], hvalue⟩

theorem exists_mapM_ok {α β : Type} {f : α → Except Fault β} {items : List α}
    (h : ∀ a ∈ items, ∃ b, f a = .ok b) : ∃ results, items.mapM f = .ok results := by
  induction items with
  | nil => exact ⟨[], rfl⟩
  | cons a items ih =>
    obtain ⟨⟨b, hb⟩, hitems⟩ := List.forall_mem_cons.mp h
    obtain ⟨others, hothers⟩ := ih hitems
    refine ⟨b :: others, ?_⟩
    rw [List.mapM_cons, hb, hothers]
    rfl

namespace IntegerText

/-- An integer with no more digits than are converted. -/
def Printable (n : Int) : Prop := n.natAbs < 10 ^ digitLimit

variable {n m : Int} {digits t : Text}

theorem length_toDigits_le_iff : (Nat.toDigits 10 n.natAbs).length ≤ digitLimit ↔ Printable n :=
  Nat.length_toDigits_le_iff (by decide) (by decide)

theorem print_eq_ok : print n = .ok t ↔ Printable n ∧ t = written n := by
  rw [← length_toDigits_le_iff, print]
  split <;> simp [*, eq_comm]

theorem Printable.of_le (hm : Printable m) (hn : 0 ≤ n) (h : n ≤ m) : Printable n := by
  unfold Printable at *
  omega

theorem printable_of_readDigits {n : Nat} (h : readDigits digits = .ok n) : Printable n := by
  unfold readDigits at h
  split at h
  · rename_i hshort
    obtain rfl := Except.ok.inj h
    exact Nat.lt_of_lt_of_le (digitsValue_lt_pow digits)
      (Nat.pow_le_pow_right (by decide) hshort)
  · cases h

theorem printable_of_read? (h : read? t = some n) : Printable n := by
  simp only [read?, readSigned?, Option.bind_eq_bind, Option.bind_eq_some_iff] at h
  obtain ⟨digits, -, m, hm, hn⟩ := h
  have hread : readDigits digits = .ok m := by
    cases hdigits : readDigits digits with
    | error fault => simp [hdigits, Except.toOption] at hm
    | ok k => simpa [hdigits, Except.toOption] using hm
  have hprintable : Printable m := printable_of_readDigits hread
  unfold Printable at *
  simp only [pure, Option.some.injEq] at hn
  split at hn <;> omega

end IntegerText

namespace Settings
open IntegerText

theorem printable_of_integer {env : Environment} {name : String} {default n : Int}
    (hdefault : Printable default) (h : integer env name default = .ok n) : Printable n := by
  unfold integer at h
  split at h
  · rwa [← Except.ok.inj h]
  split at h
  · rename_i t _ m hread
    obtain rfl := Except.ok.inj h
    exact printable_of_read? hread
  · cases h

/-- The size of a grid that was read from texts can be written. -/
theorem printable_size {env : Environment} {settings : Settings}
    (h : ofEnvironment env = .ok settings) :
    Printable settings.rows ∧ Printable settings.columns := by
  unfold ofEnvironment at h
  cases hrows : integer env "GRID_TOTAL_ROWS" 1000000 with
  | error fault => simp [hrows, bind, Except.bind] at h
  | ok rows =>
    cases hcolumns : integer env "GRID_TOTAL_COLUMNS" 10 with
    | error fault => simp [hrows, hcolumns, bind, Except.bind] at h
    | ok columns =>
      cases hbatch : integer env "GRID_BATCH_SIZE" 50 with
      | error fault => simp [hrows, hcolumns, hbatch, bind, Except.bind] at h
      | ok batch =>
        simp only [hrows, hcolumns, hbatch, bind, Except.bind] at h
        obtain rfl := Except.ok.inj h
        exact ⟨printable_of_integer (length_toDigits_le_iff.mp (by decide +kernel)) hrows,
          printable_of_integer (length_toDigits_le_iff.mp (by decide +kernel)) hcolumns⟩

theorem printable_rows {env : Environment} {settings : Settings}
    (h : ofEnvironment env = .ok settings) : Printable settings.rows :=
  (printable_size h).1

end Settings

namespace CellKey
open Reference IntegerText

/-- A cell whose reference can be written and reads back. -/
structure Writable (key : CellKey) : Prop where
  row : 0 ≤ key.row
  col : 0 ≤ key.col
  printable : Printable key.row

variable {key : CellKey} {keys : List CellKey} {ref : Text} {refs : List Text}

theorem Writable.toReference (h : key.Writable) :
    key.toReference = .ok (columnLabel key.col ++ written key.row) := by
  have hprint : print key.row = .ok (written key.row) := print_eq_ok.mpr ⟨h.printable, rfl⟩
  rw [CellKey.toReference, hprint]
  rfl

theorem Writable.ofReference (h : key.Writable) :
    ofReference (columnLabel key.col ++ written key.row) = .ok key :=
  ofReference_written h.row h.col (length_toDigits_le_iff.mpr h.printable)

/-- The reference written for a cell on or below row 0 reads back as the cell. -/
theorem ofReference_of_toReference (hrow : 0 ≤ key.row) (hcol : 0 ≤ key.col)
    (h : key.toReference = .ok ref) : ofReference ref = .ok key := by
  have hprintable : Printable key.row := by
    unfold CellKey.toReference at h
    cases hprint : print key.row with
    | error fault => simp [hprint, Except.map] at h
    | ok t => exact (print_eq_ok.mp hprint).1
  have hkey : key.Writable := ⟨hrow, hcol, hprintable⟩
  obtain rfl := Except.ok.inj (hkey.toReference.symm.trans h)
  exact hkey.ofReference

theorem mapM_ofReference (hkeys : ∀ key ∈ keys, 0 ≤ key.row ∧ 0 ≤ key.col)
    (h : keys.mapM CellKey.toReference = .ok refs) : refs.mapM ofReference = .ok keys := by
  rw [mapM_eq_ok] at h ⊢
  induction h with
  | nil => exact List.Forall₂.nil
  | cons hkey _ ih =>
    obtain ⟨⟨hrow, hcol⟩, hkeys⟩ := List.forall_mem_cons.mp hkeys
    exact List.Forall₂.cons (ofReference_of_toReference hrow hcol hkey) (ih hkeys)

theorem exists_mapM_toReference (hkeys : ∀ key ∈ keys, key.Writable) :
    ∃ refs, keys.mapM CellKey.toReference = .ok refs :=
  exists_mapM_ok fun key hkey => ⟨_, (hkeys key hkey).toReference⟩

/-- A cell read from a reference can be written again. -/
theorem writable_of_ofReference (h : CellKey.ofReference ref = .ok key) : key.Writable := by
  unfold CellKey.ofReference at h
  split at h
  · cases h
  rename_i label digits hsplit
  obtain ⟨hspells, -⟩ := RefShift.Spells.of_split? hsplit
  cases hread : readDigits digits with
  | error fault => simp [hread, Except.map] at h
  | ok row =>
    rw [hread] at h
    obtain rfl := Except.ok.inj h
    exact ⟨Int.natCast_nonneg row, columnIndex_nonneg hspells.label_ne_nil hspells.letters,
      printable_of_readDigits hread⟩

end CellKey

namespace Formula

/-- Whatever a formula refers to has been written in it. -/
theorem writable_of_mem_references {formula : Formula} {key : CellKey} (h : key ∈ formula.references) :
    key.Writable := by
  have written {token : Text} (h : cell? token = some key) : key.Writable := by
    unfold cell? at h
    split at h
    · cases hkey : CellKey.ofReference (Text.trim token) with
      | error fault => simp [hkey, Except.toOption] at h
      | ok other =>
        obtain rfl : other = key := by simpa [hkey, Except.toOption] using h
        exact CellKey.writable_of_ofReference hkey
    · cases h
  cases formula with
  | value token => exact written (by simpa [references, eq_comm] using h)
  | expression tokens =>
    obtain ⟨token, -, htoken⟩ := List.mem_filterMap.mp h
    exact written htoken

end Formula

namespace Sheet

/-- Every cell that is recorded as read can be written. -/
def RecordsWritable (s : Sheet) : Prop := ∀ key, ∀ cell ∈ s.dependencies key, cell.Writable

theorem recordsWritable_empty (columns : Int) (guarded : Bool) :
    (empty columns guarded).RecordsWritable := by
  intro key cell hcell
  simp [empty, Sheet.dependencies, DependencyGraph.empty_dependencies] at hcell

theorem RecordsWritable.of_graph {s s' : Sheet} (h : s.RecordsWritable) (hgraph : s'.graph = s.graph) :
    s'.RecordsWritable := by
  intro key cell hcell
  rw [Sheet.dependencies, hgraph] at hcell
  exact h key cell hcell

theorem RecordsWritable.read {s : Sheet} (h : s.RecordsWritable) (key : CellKey) :
    (s.read key).2.RecordsWritable := by
  rcases s.read_cases key with hsame | ⟨formula, e, hp, he, hmemo⟩
  · rw [hsame]
    exact h
  · intro k cell hcell
    rw [hmemo, memoize_dependencies] at hcell
    split at hcell
    · have hread : cell ∈ e.dependencies := List.mem_eraseDups.mp hcell
      exact Formula.writable_of_mem_references (Formula.evaluate_references hp he hread)
    · exact h k cell hcell

theorem recordsWritable_kept : CellStore.Keeps (fun _ _ => True) RecordsWritable where
  read key h := h.read key
  edit {s} key text h _ := h.of_graph (s.edit_graph key text)
  invalidate _ h := h
  fill {s} source target h _ := h.of_graph (s.fill_graph source target)
  clear {s} _ := by
    intro key cell hcell
    have hnone : (CellStore.clear s).dependencies key = [] := DependencyGraph.empty_dependencies key
    rw [hnone] at hcell
    cases hcell

end Sheet

end FormulaGrid
