import FormulaGrid.Proofs.NumeralGrammar
import FormulaGrid.Proofs.PreferredMatches
import FormulaGrid.Proofs.TrimmedText

/-!
# Longest numerals

The number read from a text is that of the longest numeral that the text begins with, correctly rounded. What
stands before it are blanks, and what follows does not matter as long as no longer numeral comes about.
-/
namespace FormulaGrid.Numeral
open Binary64

variable {text t w rest : Text} {negative : Bool} {size : WithTop ℚ} {numeral : Numeral}

/-- Cutting a numeral off in the scanner. -/
theorem isLongest_append_of_scan (h : scan (w ++ rest) = some (numeral, rest)) :
    IsLongest w (w ++ rest) ∧ IsNumeral w numeral.isNegative numeral.magnitude := by
  obtain ⟨u, hlongest, hnumeral, heq⟩ := isLongest_of_scan h
  obtain rfl := List.append_cancel_right heq
  exact ⟨hlongest, hnumeral⟩

theorem Grammatical.ne_nil (h : Grammatical w) : w ≠ [] := by
  rintro rfl
  obtain ⟨negative, size, hw⟩ := h
  obtain ⟨numeral, hscan, -⟩ := hw.scan_eq
  cases hscan

theorem firstRest_eq_some_iff : pattern.firstRest t = some rest ↔ ∃ w, IsLongest w t ∧ t = w ++ rest := by
  rw [firstRest_pattern, Option.map_eq_some_iff]
  constructor
  · rintro ⟨⟨numeral, others⟩, hscan, rfl⟩
    obtain ⟨w, hlongest, -, ht⟩ := isLongest_of_scan hscan
    exact ⟨w, hlongest, ht⟩
  · rintro ⟨w, hlongest, rfl⟩
    obtain ⟨negative, size, hw⟩ := hlongest.grammatical
    obtain ⟨numeral, hscan, -⟩ := hlongest.exists_scan hw
    exact ⟨_, hscan, rfl⟩

theorem readNumber_of_not_grammatical (h : ∀ w, w <+: Text.trimStart text → ¬Grammatical w) :
    readNumber text = .nan := by
  have hnone : scan (Text.trimStart text) = none := by
    rw [← Option.not_isSome_iff_eq_none, scan_isSome_iff]
    rintro ⟨w, hbegins, hw⟩
    exact h w hbegins hw
  rw [readNumber, hnone]

theorem isRounded_readNumber (h : IsLongest w (w ++ rest)) (ht : Text.trimStart text = w ++ rest)
    (hw : IsNumeral w negative size) : IsRounded negative size (readNumber text) := by
  obtain ⟨numeral, hscan, rfl, rfl⟩ := h.exists_scan hw
  rw [readNumber, ht, hscan]
  exact isRounded_value numeral

/-- A numeral is where it was, whatever blanks come before and whatever comes after it. -/
theorem IsLongest.trimStart_append (h : IsLongest w (Text.trimStart text)) {blanks : Text}
    (hblanks : ∀ c ∈ blanks, Text.isBlank c) (rest : Text) :
    Text.trimStart (blanks ++ (w ++ rest)) = w ++ rest := by
  have htrim := Text.trimStart_of_prefix_eq h.begins (Text.trimStart_trimStart text)
  obtain ⟨c, others, rfl⟩ := List.exists_cons_of_ne_nil h.grammatical.ne_nil
  have hc : ¬Text.isBlank c := by
    simpa [Text.trimStart, List.dropWhile_eq_self_iff] using htrim
  rw [Text.trimStart, List.dropWhile_append_of_pos hblanks]
  simp [hc]

/-- A text is read by the longest numeral in it. What the pattern of numerals matches first, going back where
it has to, is the longest numeral that the text begins with after its blanks. When there is none, the number is
NaN. Otherwise it is the number that this numeral denotes, correctly rounded, and it stays the same when the
rest of the text is replaced, as long as no longer numeral begins there. -/
theorem reads_longest_numeral (text : Text) :
    (∀ rest, pattern.firstRest (Text.trimStart text) = some rest ↔
      ∃ w, IsLongest w (Text.trimStart text) ∧ Text.trimStart text = w ++ rest) ∧
    ((∀ w, w <+: Text.trimStart text → ¬Grammatical w) → readNumber text = .nan) ∧
    ((∃ w, w <+: Text.trimStart text ∧ Grammatical w) → ∃! w, IsLongest w (Text.trimStart text)) ∧
    ∀ w, IsLongest w (Text.trimStart text) →
      (∀ negative size, IsNumeral w negative size → IsRounded negative size (readNumber text)) ∧
      ∀ blanks rest, (∀ c ∈ blanks, Text.isBlank c) → IsLongest w (w ++ rest) →
        readNumber (blanks ++ (w ++ rest)) = readNumber text := by
  refine ⟨fun _ => firstRest_eq_some_iff, readNumber_of_not_grammatical, ?_, ?_⟩
  · intro h
    obtain ⟨⟨numeral, rest⟩, hscan⟩ := Option.isSome_iff_exists.mp (scan_isSome_iff.mpr h)
    obtain ⟨w, hlongest, -⟩ := isLongest_of_scan hscan
    exact ⟨w, hlongest, fun u hu => hu.unique hlongest⟩
  · intro w h
    obtain ⟨after, hafter⟩ := h.begins
    have hlongest : IsLongest w (w ++ after) := hafter ▸ h
    constructor
    · exact fun negative size => isRounded_readNumber hlongest hafter.symm
    · intro blanks rest hblanks hrest
      obtain ⟨negative, size, hw⟩ := h.grammatical
      have hread := isRounded_readNumber hlongest hafter.symm hw
      have hreplaced := isRounded_readNumber hrest (h.trimStart_append hblanks rest) hw
      exact hreplaced.unique hread

/-- An exponent without digits does not belong to the numeral, and a part of the word is none. -/
theorem reads_longest_numeral_unfinished :
    let w := ['-', '\u0663', '.', '5']
    let text := '\t' :: (w ++ "e+x".toList)
    let size : WithTop ℚ := (7 / 2 : ℚ)
    (∀ u, u <+: Text.trimStart " +Infin".toList → ¬Grammatical u) ∧
      readNumber " +Infin".toList = .nan ∧
      (∃! u, IsLongest u (Text.trimStart text)) ∧ IsLongest w (Text.trimStart text) ∧
      pattern.firstRest (Text.trimStart text) = some "e+x".toList ∧
      IsNumeral w true size ∧ IsRounded true size (readNumber text) ∧
      (∀ c ∈ [' ', '\u3000'], Text.isBlank c) ∧ IsLongest w (w ++ "E-".toList) ∧
      readNumber ([' ', '\u3000'] ++ (w ++ "E-".toList)) = readNumber text := by
  intro w text size
  have hnone : ∀ u, u <+: Text.trimStart " +Infin".toList → ¬Grammatical u := by
    intro u hbegins hu
    have hscan := scan_isSome_iff.mpr ⟨u, hbegins, hu⟩
    exact absurd hscan (by decide)
  have htrim : Text.trimStart text = w ++ "e+x".toList := by decide
  have hscan : scan (w ++ "e+x".toList) = some (.decimal true 35 (-1), "e+x".toList) := by decide
  have hother : scan (w ++ "E-".toList) = some (.decimal true 35 (-1), "E-".toList) := by decide
  have hblanks : ∀ c ∈ [' ', '\u3000'], Text.isBlank c :=
    List.forall_mem_cons.mpr ⟨by decide, List.forall_mem_singleton.mpr (by decide)⟩
  have hvalue : (Decimal.mk 35 (-1)).value = 7 / 2 := by norm_num [Decimal.value]
  have hsize : (Numeral.decimal true 35 (-1)).magnitude = size := congrArg _ hvalue
  obtain ⟨hlongest, hnumeral⟩ := isLongest_append_of_scan hscan
  rw [hsize] at hnumeral
  rw [← htrim] at hlongest
  have hrest := (isLongest_append_of_scan hother).1
  obtain ⟨hpattern, -, hexists, hreads⟩ := reads_longest_numeral text
  obtain ⟨hrounded, hkept⟩ := hreads w hlongest
  exact ⟨hnone, (reads_longest_numeral " +Infin".toList).2.1 hnone,
    hexists ⟨w, hlongest.begins, hlongest.grammatical⟩, hlongest,
    (hpattern "e+x".toList).mpr ⟨w, hlongest, htrim⟩, hnumeral, hrounded true size hnumeral, hblanks,
    hrest, hkept [' ', '\u3000'] "E-".toList hblanks hrest⟩

end FormulaGrid.Numeral
