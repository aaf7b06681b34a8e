import FormulaGrid.Proofs.WritableCells

/-!
# Canonical references

A reference is read if it is a label and digits of any script, with or without one line feed after them, and
its row is not too long. What is written for the cell it names reads back as this cell, and is the reference
itself when nothing in it is superfluous: no line feed, no leading zero and none but the ASCII digits.
-/
namespace FormulaGrid
open Digits

namespace IntegerText

variable {c : Char} {digits : Text}

/-- Digits as a number is printed: the ASCII ones, and a leading zero only in zero itself. -/
structure Canonical (digits : Text) : Prop where
  ascii : ∀ c ∈ digits, c.isDigit
  leading : digits.head? = some '0' → digits = ['0']

theorem exists_digitChar (h : c.isDigit) : ∃ d < 10, c = Nat.digitChar d := by
  have hc : 48 ≤ c.toNat ∧ c.toNat ≤ 57 := by
    simpa [Char.isDigit, UInt32.le_iff_toNat_le] using h
  refine ⟨c.toNat - 48, by omega, ?_⟩
  apply Char.toNat_inj.mp
  rw [Nat.toNat_digitChar_of_lt_ten (by omega)]
  omega

theorem canonical_toDigits (n : Nat) : Canonical (Nat.toDigits 10 n) where
  ascii _ hc := Nat.isDigit_of_mem_toDigits (by decide) (by decide) hc
  leading h := by
    rcases toDigits_shape n with hzero | ⟨c, t, hshape, hc, -⟩
    · exact hzero
    · rw [hshape, List.head?_cons, Option.some.injEq] at h
      subst h
      exact absurd hc (by decide)

theorem Canonical.of_concat (h : Canonical (digits ++ [c])) (hne : digits ≠ []) : Canonical digits where
  ascii d hd := h.ascii d (List.mem_append_left _ hd)
  leading hzero := by
    have hall := h.leading ((List.head?_append_of_ne_nil _ hne).trans hzero)
    exact absurd (List.append_eq_singleton_iff.mp hall) (by simp [hne])

/-- Canonical digits are printed for their value. -/
theorem Canonical.toDigits_digitsValue (h : Canonical digits) (hne : digits ≠ []) :
    Nat.toDigits 10 (digitsValue digits) = digits := by
  induction digits using List.reverseRecOn with
  | nil => exact absurd rfl hne
  | append_singleton digits c ih =>
    obtain ⟨d, hd, rfl⟩ := exists_digitChar (h.ascii c (by simp))
    rw [digitsValue_append_singleton, digitValue?_digitChar hd, Option.getD_some]
    by_cases hfirst : digits = []
    · have hnone : digitsValue [] = 0 := rfl
      rw [hfirst, hnone, Nat.mul_zero, Nat.zero_add, Nat.toDigits_of_lt_base hd, List.nil_append]
    · have hdigits := ih (h.of_concat hfirst) hfirst
      have hpos : 0 < digitsValue digits := by
        rw [Nat.pos_iff_ne_zero]
        intro hzero
        -- Zero is printed as a zero, which no other digit may follow.
        rw [hzero] at hdigits
        have hhead : (digits ++ [Nat.digitChar d]).head? = some '0' := by rw [← hdigits]; rfl
        exact absurd (List.append_eq_singleton_iff.mp (h.leading hhead)) (by simp [hfirst])
      rw [← Nat.toDigits_append_toDigits (by decide) hpos hd, hdigits, Nat.toDigits_of_lt_base hd]

theorem canonical_iff (hne : digits ≠ []) :
    Canonical digits ↔ Nat.toDigits 10 (digitsValue digits) = digits :=
  ⟨fun h => h.toDigits_digitsValue hne, fun h => h ▸ canonical_toDigits _⟩

end IntegerText

namespace CellKey
open Reference IntegerText

variable {t label digits : Text} {feed : Bool} {key : CellKey}

/-- A label and digits that can be converted, and possibly a line feed after them. -/
structure Accepted (t label digits : Text) (feed : Bool) : Prop where
  spells : RefShift.Spells label digits
  short : digits.length ≤ digitLimit
  text : t = label ++ digits ++ if feed then ['\n'] else []

theorem Accepted.ofReference (h : Accepted t label digits feed) :
    ofReference t = .ok ⟨digitsValue digits, columnIndex label⟩ := by
  have hsplit : split? t = some (label, digits) := by
    rw [h.text, List.append_assoc]
    apply h.spells.split?_append
    cases feed <;> simp
  exact ofReference_short hsplit h.short

theorem exists_accepted (h : ofReference t = .ok key) : ∃ label digits feed, Accepted t label digits feed := by
  cases hsplit : split? t with
  | none => simp [CellKey.ofReference, hsplit] at h
  | some parts =>
    obtain ⟨label, digits⟩ := parts
    obtain ⟨hspells, ht⟩ := RefShift.Spells.of_split? hsplit
    have hshort : digits.length ≤ digitLimit := by
      by_contra hlong
      rw [ofReference_overlong hsplit (by omega)] at h
      cases h
    rcases ht with ht | ht
    · exact ⟨label, digits, false, hspells, hshort, by simpa using ht⟩
    · exact ⟨label, digits, true, hspells, hshort, ht⟩

/-- What is written for an accepted reference is the reference itself when nothing in it is superfluous. -/
theorem Accepted.written_iff (h : Accepted t label digits feed) :
    columnLabel (columnIndex label) ++ written (digitsValue digits) = t ↔
      feed = false ∧ Canonical digits := by
  have hdigits : written (digitsValue digits) = Nat.toDigits 10 (digitsValue digits) := by
    rw [written_of_nonneg (Int.natCast_nonneg _), Int.natAbs_natCast]
  rw [columnLabel_columnIndex h.spells.letters, hdigits, h.text, List.append_assoc, List.append_cancel_left_eq,
    canonical_iff h.spells.digits_ne_nil]
  cases feed with
  | false => simp
  | true =>
    have hnot : Nat.toDigits 10 (digitsValue digits) ≠ digits ++ ['\n'] := by
      intro heq
      have hmem : '\n' ∈ Nat.toDigits 10 (digitsValue digits) := by rw [heq]; simp
      exact absurd (isDigit_toDigits hmem) (by decide)
    simpa using hnot

/-- The codec of references round-trips. The reference written for a cell reads back as the cell. What reads
as a reference is a label, digits and possibly a line feed. Writing the cell that it names gives a reference
of the same cell, and the same reference just when it is canonical. -/
theorem references_round_trip (row col : Int) (t : Text) :
    (0 ≤ col → 0 ≤ row → (Nat.toDigits 10 row.natAbs).length ≤ digitLimit →
      ∃ ref, toReference ⟨row, col⟩ = .ok ref ∧ ofReference ref = .ok ⟨row, col⟩) ∧
    ((∃ key, ofReference t = .ok key) ↔ ∃ label digits feed, Accepted t label digits feed) ∧
    ∀ label digits feed, Accepted t label digits feed →
      ∃ key ref, ofReference t = .ok key ∧ key.toReference = .ok ref ∧ ofReference ref = .ok key ∧
        (ref = t ↔ feed = false ∧ Canonical digits) := by
  refine ⟨?_, ?_, ?_⟩
  · intro hcol hrow hshort
    have hkey : Writable ⟨row, col⟩ := ⟨hrow, hcol, length_toDigits_le_iff.mp hshort⟩
    exact ⟨_, hkey.toReference, hkey.ofReference⟩
  · constructor
    · rintro ⟨key, h⟩
      exact exists_accepted h
    · rintro ⟨label, digits, feed, h⟩
      exact ⟨_, h.ofReference⟩
  · intro label digits feed h
    have hkey := writable_of_ofReference h.ofReference
    exact ⟨_, _, h.ofReference, hkey.toReference, hkey.ofReference, h.written_iff⟩

theorem references_round_trip_respelled :
    let t : Text := ['A', 'B', '0', '\u0667', '\n']
    (∃ ref, toReference ⟨7, 27⟩ = .ok ref ∧ ofReference ref = .ok ⟨7, 27⟩) ∧
    Accepted t ['A', 'B'] ['0', '\u0667'] true ∧
    ∃ key ref, ofReference t = .ok key ∧ key.toReference = .ok ref ∧ ofReference ref = .ok key ∧
      ref ≠ t := by
  intro t
  have hletters : isLetter 'A' ∧ isLetter 'B' := by decide
  have hdigits : isDigit '0' ∧ isDigit '\u0667' := by decide
  have ht : Accepted t ['A', 'B'] ['0', '\u0667'] true :=
    ⟨⟨by simp, by simpa using hletters, by simp, by simpa using hdigits⟩, by decide, rfl⟩
  obtain ⟨hwritten, -, hread⟩ := references_round_trip 7 27 t
  obtain ⟨key, ref, hkey, href, hback, hsame⟩ := hread _ _ _ ht
  refine ⟨hwritten (by decide) (by decide) (by decide +kernel), ht, key, ref, hkey, href, hback, ?_⟩
  intro heq
  cases (hsame.mp heq).1

end CellKey

end FormulaGrid
