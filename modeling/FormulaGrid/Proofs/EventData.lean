import FormulaGrid.EventText
import FormulaGrid.Proofs.ReferenceCodec

/-!
# What event data tell

The data of an event belong to one cell and one text only. A row and a column end at the first comma, a text
ends at the first quotation mark that is not escaped, and escaped characters cannot be taken for others.
-/
namespace FormulaGrid

variable {α : Type} {a : α} {before before' after after' : List α}

/-- What stands before the first mark, and what after it. -/
theorem append_mark_inj (hb : a ∉ before) (hb' : a ∉ before')
    (h : before ++ a :: after = before' ++ a :: after') : before = before' ∧ after = after' := by
  induction before generalizing before' with
  | nil =>
    cases before' with
    | nil => exact ⟨rfl, (List.cons.inj h).2⟩
    | cons b before' => exact absurd (by simp [(List.cons.inj h).1]) hb'
  | cons b before ih =>
    cases before' with
    | nil => exact absurd (by simp [(List.cons.inj h).1]) hb
    | cons b' before' =>
      obtain ⟨rfl, hrest⟩ := List.cons.inj h
      obtain ⟨rfl, hafter⟩ :=
        ih (mt (List.mem_cons_of_mem b) hb) (mt (List.mem_cons_of_mem b) hb') hrest
      exact ⟨rfl, hafter⟩

namespace IntegerText
open Digits

theorem toDigits_inj {n m : Nat} (h : Nat.toDigits 10 n = Nat.toDigits 10 m) : n = m := by
  rw [← digitsValue_toDigits n, h, digitsValue_toDigits]

theorem not_mem_toDigits {c : Char} (hc : isDigit c = false) (n : Nat) : c ∉ Nat.toDigits 10 n := by
  intro hmem
  rw [isDigit_toDigits hmem] at hc
  cases hc

theorem written_injective : Function.Injective written := by
  intro n m h
  unfold written at h
  split at h
  · split at h
    · have hdigits := toDigits_inj (List.cons.inj h).2
      omega
    · exact absurd (by simp [← h]) (not_mem_toDigits (c := '-') (by decide) m.natAbs)
  · split at h
    · exact absurd (by simp [h]) (not_mem_toDigits (c := '-') (by decide) n.natAbs)
    · have hdigits := toDigits_inj h
      omega

theorem comma_not_mem_written (n : Int) : ',' ∉ written n := by
  have hdigits := not_mem_toDigits (c := ',') (by decide) n.natAbs
  unfold written
  split
  · simpa using hdigits
  · exact hdigits

end IntegerText

namespace EventText

variable {c d : Char} {n m : Nat} {t t' x y : Text}

def hexDigit (c : Char) : Nat := if c ≤ '9' then c.toNat - 48 else c.toNat - 87

def hexValue (t : Text) : Nat := t.foldl (fun value c => 16 * value + hexDigit c) 0

theorem hexDigit_digitChar (h : n < 16) : hexDigit n.digitChar = n := by
  have hall : ∀ n < 16, hexDigit n.digitChar = n := by decide
  exact hall n h

theorem hexValue_toDigits (n : Nat) : hexValue (Nat.toDigits 16 n) = n := by
  induction n using Nat.strongRecOn with
  | ind n ih =>
    rw [Nat.toDigits_eq_if (by decide)]
    split
    · simp [hexValue, hexDigit_digitChar ‹_›]
    · have hlast : hexDigit (n % 16).digitChar = n % 16 := hexDigit_digitChar (Nat.mod_lt n (by decide))
      have hfirst := ih (n / 16) (by omega)
      simp only [hexValue, List.foldl_append, List.foldl_cons, List.foldl_nil] at hfirst ⊢
      rw [hfirst, hlast]
      omega

theorem hexValue_hexDigits (n : Nat) : hexValue (hexDigits n) = n := by
  have hzeros (k : Nat) :
      (List.replicate k '0').foldl (fun value c => 16 * value + hexDigit c) 0 = 0 := by
    induction k with
    | zero => rfl
    | succ k ih => exact ih
  have hdigits := hexValue_toDigits n
  unfold hexValue at hdigits ⊢
  rw [hexDigits, List.foldl_append, hzeros, hdigits]

theorem unit_append_inj (hn : n < 0x10000) (hm : m < 0x10000) (h : unit n ++ x = unit m ++ y) :
    n = m ∧ x = y := by
  simp only [unit, List.cons_append, List.cons.injEq, true_and] at h
  obtain ⟨hdigits, hrest⟩ :=
    List.append_inj h (by rw [hexDigits_length hn, hexDigits_length hm])
  exact ⟨by rw [← hexValue_hexDigits n, hdigits, hexValue_hexDigits], hrest⟩

theorem toNat_lt (c : Char) : c.toNat < 0xd800 ∨ 0xdfff < c.toNat ∧ c.toNat < 0x110000 := c.valid

/-- No character has the number of a first unit for itself. -/
theorem units_append_inj (h : units c ++ x = units d ++ y) : c = d ∧ x = y := by
  have hc := toNat_lt c
  have hd := toNat_lt d
  unfold units at h
  split at h
  · split at h
    · obtain ⟨hsame, hrest⟩ := unit_append_inj (by omega) (by omega) h
      exact ⟨Char.toNat_inj.mp hsame, hrest⟩
    · rw [List.append_assoc] at h
      have hsame := (unit_append_inj (by omega) (by omega) h).1
      omega
  · split at h
    · rw [List.append_assoc] at h
      have hsame := (unit_append_inj (by omega) (by omega) h).1
      omega
    · rw [List.append_assoc, List.append_assoc] at h
      obtain ⟨hfirst, hrest⟩ := unit_append_inj (by omega) (by omega) h
      obtain ⟨hsecond, hrest⟩ := unit_append_inj (by omega) (by omega) hrest
      exact ⟨Char.toNat_inj.mp (by omega), hrest⟩

/-- The characters that are written by a backslash and a letter or mark. -/
def marks : List (Char × Char) :=
  [('"', '"'), ('\\', '\\'), ('\n', 'n'), ('\r', 'r'), ('\t', 't'), ('\x08', 'b'), ('\x0c', 'f')]

/-- The three ways of writing a character. -/
inductive Escaped (c : Char) : Text → Prop where
  | plain (hquote : c ≠ '"') (hslash : c ≠ '\\') : Escaped c [c]
  | marked {mark : Char} (h : (c, mark) ∈ marks) : Escaped c ['\\', mark]
  | units : Escaped c (units c)

theorem escaped_escape (c : Char) : Escaped c (escape c) := by
  unfold escape
  split
  case h_8 hquote hslash _ _ _ _ _ =>
    split
    · exact .plain hquote hslash
    · exact .units
  all_goals exact .marked (by decide)

theorem unit_eq_cons (n : Nat) : unit n = '\\' :: 'u' :: hexDigits n := rfl

theorem units_eq_cons (c : Char) : ∃ t, units c = '\\' :: 'u' :: t := by
  unfold units
  split
  · exact ⟨_, unit_eq_cons _⟩
  · dsimp only
    rw [unit_eq_cons, List.cons_append, List.cons_append]
    exact ⟨_, rfl⟩

theorem mark_inj {mark : Char} (hc : (c, mark) ∈ marks) (hd : (d, mark) ∈ marks) : c = d := by
  have hall : ∀ p ∈ marks, ∀ q ∈ marks, p.2 = q.2 → p.1 = q.1 := by decide
  exact hall _ hc _ hd rfl

theorem mark_ne_u (h : (c, 'u') ∈ marks) : False := by
  have hall : ∀ p ∈ marks, p.2 ≠ 'u' := by decide
  exact hall _ h rfl

theorem Escaped.append_inj (hc : Escaped c t) (hd : Escaped d t') (h : t ++ x = t' ++ y) :
    c = d ∧ x = y := by
  obtain ⟨u, hu⟩ := units_eq_cons c
  obtain ⟨v, hv⟩ := units_eq_cons d
  cases hc with
  | plain hquote hslash =>
    cases hd with
    | plain => exact ⟨(List.cons.inj h).1, (List.cons.inj h).2⟩
    | marked => exact absurd (List.cons.inj h).1 hslash
    | units =>
      rw [hv] at h
      exact absurd (List.cons.inj h).1 hslash
  | marked hmark =>
    cases hd with
    | plain hquote hslash => exact absurd (List.cons.inj h).1.symm hslash
    | marked hother =>
      obtain ⟨rfl, hrest⟩ := List.cons.inj (List.cons.inj h).2
      exact ⟨mark_inj hmark hother, hrest⟩
    | units =>
      rw [hv] at h
      obtain ⟨rfl, -⟩ := List.cons.inj (List.cons.inj h).2
      exact (mark_ne_u hmark).elim
  | units =>
    cases hd with
    | plain hquote hslash =>
      rw [hu] at h
      exact absurd (List.cons.inj h).1.symm hslash
    | marked hmark =>
      rw [hu] at h
      obtain ⟨rfl, -⟩ := List.cons.inj (List.cons.inj h).2
      exact (mark_ne_u hmark).elim
    | units => exact units_append_inj h

/-- An escaped character does not begin with a quotation mark. -/
theorem Escaped.ne_quote (h : Escaped c t) : t ++ x ≠ '"' :: y := by
  obtain ⟨u, hu⟩ := units_eq_cons c
  intro heq
  cases h with
  | plain hquote => exact hquote (List.cons.inj heq).1
  | marked => cases (List.cons.inj heq).1
  | units =>
    rw [hu] at heq
    cases (List.cons.inj heq).1

/-- Escaped texts end at the first quotation mark that is not part of them. -/
theorem escape_append_inj (h : t.flatMap escape ++ '"' :: x = t'.flatMap escape ++ '"' :: y) :
    t = t' ∧ x = y := by
  induction t generalizing t' with
  | nil =>
    cases t' with
    | nil => exact ⟨rfl, (List.cons.inj h).2⟩
    | cons d t' =>
      rw [List.flatMap_cons, List.append_assoc] at h
      exact absurd h.symm (escaped_escape d).ne_quote
  | cons c t ih =>
    cases t' with
    | nil =>
      rw [List.flatMap_cons, List.append_assoc] at h
      exact absurd h (escaped_escape c).ne_quote
    | cons d t' =>
      rw [List.flatMap_cons, List.flatMap_cons, List.append_assoc, List.append_assoc] at h
      obtain ⟨rfl, hrest⟩ := (escaped_escape c).append_inj (escaped_escape d) h
      obtain ⟨rfl, hend⟩ := ih hrest
      exact ⟨rfl, hend⟩

/-- The fields of event data, each up to its mark. -/
theorem exists_cell_eq : ∃ first second third : Text, ∀ key text, cell key text =
    first ++ (IntegerText.written key.row ++ ',' :: (second ++ (IntegerText.written key.col ++
      ',' :: (third ++ (text.flatMap escape ++ '"' :: ['\x7d']))))) := by
  have hcol : ", \"col\": ".toList = ',' :: " \"col\": ".toList := by decide
  have hvalue : ", \"value\": ".toList = ',' :: " \"value\": ".toList := by decide
  unfold cell quote
  rw [hcol, hvalue]
  generalize "\x7b\"type\": \"cell\", \"row\": ".toList = first
  generalize " \"col\": ".toList = second
  generalize " \"value\": ".toList = third
  exact ⟨first, second, third ++ ['"'], fun key text => by simp⟩

/-- Event data tell the row, the column and the text of the cell. -/
theorem cell_inj {key key' : CellKey} {text text' : Text} (h : cell key text = cell key' text') :
    key = key' ∧ text = text' := by
  obtain ⟨first, second, third, hcell⟩ := exists_cell_eq
  rw [hcell, hcell] at h
  obtain ⟨hrow, hafter⟩ := append_mark_inj (IntegerText.comma_not_mem_written _)
    (IntegerText.comma_not_mem_written _) (List.append_cancel_left h)
  obtain ⟨hcol, hafter⟩ := append_mark_inj (IntegerText.comma_not_mem_written _)
    (IntegerText.comma_not_mem_written _) (List.append_cancel_left hafter)
  have htext := (escape_append_inj (List.append_cancel_left hafter)).1
  refine ⟨?_, htext⟩
  cases key
  cases key'
  simp only at hrow hcol
  rw [IntegerText.written_injective hrow, IntegerText.written_injective hcol]

end EventText

/-- What an event tells: a refreshed cell and the text that it displays. -/
structure CellEvent where
  key : CellKey
  text : Text
  deriving DecidableEq, Repr

/-- The data that a client receives for an event. -/
def CellEvent.data (e : CellEvent) : Text := EventText.cell e.key e.text

theorem CellEvent.data_injective : Function.Injective CellEvent.data := by
  rintro ⟨key, text⟩ ⟨key', text'⟩ h
  obtain ⟨rfl, rfl⟩ := EventText.cell_inj h
  rfl

end FormulaGrid
