import FormulaGrid.Proofs.ComposedShifts
import Mathlib.Data.List.Shortlex
import Mathlib.Data.Set.Function

/-!
# The order of columns

Column labels are all words of letters, each the label of one column, and they come in the order of their
columns: a label before every longer one, and labels of one length alphabetically. So a reference that is
moved to the right has a later label.
-/
namespace FormulaGrid

namespace Reference

variable {label label' : Text} {c c' : Char} {n m : Nat} {i j : Int}

/-- The words that label columns. -/
structure IsLabel (label : Text) : Prop where
  ne_nil : label ≠ []
  letters : ∀ c ∈ label, isLetter c

/-- A label stands before the longer ones, and among those of its length alphabetically. -/
abbrev Precedes (label label' : Text) : Prop := List.Shortlex (· < ·) label label'

theorem lex_append (hlength : label.length = label'.length) (h : List.Lex (· < ·) label label')
    (rest rest' : Text) : List.Lex (· < ·) (label ++ rest) (label' ++ rest') := by
  induction h with
  | nil => cases hlength
  | rel hc => exact .rel hc
  | cons _ ih => exact .cons (ih (Nat.succ.inj hlength))

/-- Whatever letters are appended, the labels before them decide. -/
theorem Precedes.append_singleton (h : Precedes label label') (c c' : Char) :
    Precedes (label ++ [c]) (label' ++ [c']) := by
  rcases List.shortlex_def.mp h with hlt | ⟨heq, hlex⟩
  · exact .of_length_lt (by simpa using hlt)
  · exact .of_lex (by simpa using heq) (lex_append heq hlex [c] [c'])

theorem letter_lt (h : n < m) (hm : m < 26) : letter n < letter m := by
  have hplaces : (letter n).toNat < (letter m).toNat := by
    rw [letter_toNat (h.trans hm), letter_toNat hm]
    omega
  simpa [Char.lt_def, UInt32.lt_iff_toNat_lt] using hplaces

/-- A later place in the list of labels has a later label. -/
theorem precedes_labelAt (h : n < m) : Precedes (labelAt n) (labelAt m) := by
  induction m using Nat.strongRecOn generalizing n with
  | ind m ih =>
    obtain ⟨m, rfl⟩ := Nat.exists_eq_succ_of_ne_zero (Nat.ne_zero_of_lt h)
    rw [Nat.succ_eq_add_one, labelAt_succ]
    cases n with
    | zero =>
      rw [labelAt]
      exact .of_length_lt (by simp)
    | succ n =>
      rw [labelAt_succ]
      rcases Nat.lt_or_ge (n / 26) (m / 26) with hlt | hge
      · exact (ih (m / 26) (by omega) hlt).append_singleton _ _
      -- In one block of labels the last letters decide.
      · have hblock : n / 26 = m / 26 := by omega
        have hletters : letter (n % 26) < letter (m % 26) := letter_lt (by omega) (by omega)
        rw [hblock]
        exact ((List.shortlex_singleton_iff _ _).mpr hletters).append_left _

theorem precedes_columnLabel (hi : 0 ≤ i) (h : i < j) : Precedes (columnLabel i) (columnLabel j) :=
  precedes_labelAt (by omega)

theorem precedes_columnLabel_iff (hi : 0 ≤ i) (hj : 0 ≤ j) :
    Precedes (columnLabel i) (columnLabel j) ↔ i < j := by
  refine ⟨fun h => ?_, precedes_columnLabel hi⟩
  rcases lt_trichotomy i j with hlt | rfl | hgt
  · exact hlt
  · exact absurd h (irrefl_of Precedes _)
  · exact absurd h (asymm_of Precedes (precedes_columnLabel hj hgt))

theorem isLabel_columnLabel (h : 0 ≤ i) : IsLabel (columnLabel i) :=
  ⟨columnLabel_ne_nil h, fun _ => isLetter_of_mem_columnLabel⟩

theorem IsLabel.columnIndex_nonneg (h : IsLabel label) : 0 ≤ columnIndex label :=
  Reference.columnIndex_nonneg h.ne_nil h.letters

/-- Every label is that of one column, which is read off it. -/
theorem invOn_columnIndex : Set.InvOn columnIndex columnLabel {col | 0 ≤ col} {label | IsLabel label} :=
  ⟨fun _ h => columnIndex_columnLabel h, fun _ h => columnLabel_columnIndex h.letters⟩

theorem bijOn_columnLabel : Set.BijOn columnLabel {col | 0 ≤ col} {label | IsLabel label} :=
  invOn_columnIndex.bijOn (fun _ h => isLabel_columnLabel h) fun _ h => h.columnIndex_nonneg

theorem IsLabel.precedes_moved {cols : Int} (h : IsLabel label) (hcols : 0 < cols) :
    Precedes label (columnLabel (columnIndex label + cols)) := by
  have hmoved := precedes_columnLabel h.columnIndex_nonneg (Int.lt_add_of_pos_right _ hcols)
  rwa [columnLabel_columnIndex h.letters] at hmoved

end Reference

namespace RefShift
open Digits Reference IntegerText

variable {label digits : Text} {rows cols : Int}

theorem Spells.isLabel (h : Spells label digits) : IsLabel label := ⟨h.label_ne_nil, h.letters⟩

theorem shift_reference (h : Spells label digits) (hfits : Fits rows digits) :
    shift (label ++ digits) rows cols = .ok (movedReference rows cols label digits) := by
  have hmatched : matched (label ++ digits) = [(label, digits)] := gather_reference _ _ h
  have hmoved : moved rows cols (label ++ digits) = movedReference rows cols label digits :=
    gather_reference _ _ h
  rw [← hmoved]
  apply shift_of_fits
  rw [hmatched]
  exact List.forall_mem_singleton.mpr hfits

/-- Whatever becomes of its row, a reference that is moved to the right has a later label. -/
theorem Spells.exists_later_label (h : Spells label digits) (rows : Int) (hcols : 0 < cols) :
    ∃ label', IsLabel label' ∧ Precedes label label' ∧
      movedReference rows cols label digits = label' ++ written (digitsValue digits + rows) := by
  have hindex := h.isLabel.columnIndex_nonneg
  exact ⟨columnLabel (columnIndex label + cols), isLabel_columnLabel (by omega),
    h.isLabel.precedes_moved hcols, rfl⟩

/-- Column labels are an order isomorphism. Writing the label of a column and reading a label undo each
other, between the columns and the words of letters that are not empty. A column is before another one just
when its label is shorter, or of the same length and alphabetically smaller. So a shift to the right moves a
reference to a later label, one that is alone and each one that is matched in a text. -/
theorem columnLabel_order_isomorphism :
    Set.InvOn columnIndex columnLabel {col | 0 ≤ col} {label | IsLabel label} ∧
    Set.BijOn columnLabel {col | 0 ≤ col} {label | IsLabel label} ∧
    (∀ i j, 0 ≤ i → 0 ≤ j → (i < j ↔ Precedes (columnLabel i) (columnLabel j))) ∧
    (∀ label digits rows cols, Spells label digits → Fits rows digits → 0 < cols →
      ∃ label', IsLabel label' ∧ Precedes label label' ∧
        shift (label ++ digits) rows cols = .ok (label' ++ written (digitsValue digits + rows))) ∧
    ∀ t rows cols, (∀ reference ∈ matched t, Fits rows reference.2) → 0 < cols →
      shift t rows cols = .ok (moved rows cols t) ∧
      ∀ reference ∈ matched t, ∃ label', IsLabel label' ∧ Precedes reference.1 label' ∧
        movedReference rows cols reference.1 reference.2 =
          label' ++ written (digitsValue reference.2 + rows) := by
  refine ⟨invOn_columnIndex, bijOn_columnLabel, ?_, ?_, ?_⟩
  · intro i j hi hj
    exact (precedes_columnLabel_iff hi hj).symm
  · intro label digits rows cols hspells hfits hcols
    obtain ⟨label', hlabel, hlater, hmoved⟩ := hspells.exists_later_label rows hcols
    exact ⟨label', hlabel, hlater, hmoved ▸ shift_reference hspells hfits⟩
  · intro t rows cols hfits hcols
    refine ⟨shift_of_fits hfits, fun reference hmem => ?_⟩
    exact (exists_spells_of_mem_matched hmem).exists_later_label rows hcols

/-- After the last label of two letters comes the first one of three. -/
theorem columnLabel_order_isomorphism_longer :
    (0 : Int) ≤ 701 ∧ (0 : Int) ≤ 702 ∧ columnLabel 701 = ['Z', 'Z'] ∧
    columnLabel 702 = ['A', 'A', 'A'] ∧ Precedes (columnLabel 701) (columnLabel 702) ∧
    Spells ['Z', 'Z'] ['9'] ∧ Fits 1 ['9'] ∧ (0 : Int) < 1 ∧
    (∃ label', IsLabel label' ∧ Precedes ['Z', 'Z'] label' ∧
      shift ['Z', 'Z', '9'] 1 1 = .ok (label' ++ ['1', '0'])) ∧
    matched "=2*ZZ9".toList = [(['Z', 'Z'], ['9'])] ∧
    shift "=2*ZZ9".toList 1 1 = .ok "=2*AAA10".toList ∧
    ∃ label', IsLabel label' ∧ Precedes ['Z', 'Z'] label' ∧
      movedReference 1 1 ['Z', 'Z'] ['9'] = label' ++ ['1', '0'] := by
  obtain ⟨⟨-, hread⟩, -, horder, hmoves, hshifts⟩ := columnLabel_order_isomorphism
  have hletters : isLetter 'Z' ∧ isLetter 'A' := by decide
  have hlast : IsLabel ['Z', 'Z'] := ⟨by simp, by simpa using hletters.1⟩
  have hfirst : IsLabel ['A', 'A', 'A'] := ⟨by simp, by simpa using hletters.2⟩
  have hspells : Spells ['Z', 'Z'] ['9'] :=
    ⟨hlast.ne_nil, hlast.letters, by simp, List.forall_mem_singleton.mpr (by decide)⟩
  have hfits : Fits 1 ['9'] := ⟨by decide, by decide⟩
  have hmatched : matched "=2*ZZ9".toList = [(['Z', 'Z'], ['9'])] := by decide
  have hmoved : moved 1 1 "=2*ZZ9".toList = "=2*AAA10".toList := by decide +kernel
  obtain ⟨hshift, hlater⟩ :=
    hshifts "=2*ZZ9".toList 1 1 (hmatched ▸ List.forall_mem_singleton.mpr hfits) (by decide)
  exact ⟨by decide, by decide, hread hlast, hread hfirst,
    (horder 701 702 (by decide) (by decide)).mp (by decide), hspells, hfits, by decide,
    hmoves ['Z', 'Z'] ['9'] 1 1 hspells hfits (by decide), hmatched, hmoved ▸ hshift,
    hlater (['Z', 'Z'], ['9']) (hmatched ▸ List.mem_singleton_self _)⟩

end RefShift

end FormulaGrid
