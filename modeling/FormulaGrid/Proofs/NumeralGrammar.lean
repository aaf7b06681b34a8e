import FormulaGrid.Proofs.CorrectRounding
import FormulaGrid.Proofs.ScannedNumerals

/-!
# The grammar of numerals

A numeral is an optional sign followed by the word Infinity, or by digits with an optional point and an optional
exponent. The scanner takes a numeral, and never a shorter one than there is. So what it takes is the longest
numeral that the text begins with.
-/
namespace FormulaGrid.Numeral
open Digits

variable {t u w rest signs mantissa exponent digits whole fraction : Text} {negative : Bool}
  {numeral : Numeral} {e : Int}

/-- Digits of any script, at least one. -/
structure IsDigits (digits : Text) : Prop where
  ne_nil : digits ≠ []
  digits : ∀ c ∈ digits, isDigit c

/-- The digits before and after the point. It may be left out, but on one side of it there are digits. -/
inductive IsMantissa : Text → Text → Text → Prop where
  | whole {digits : Text} (h : IsDigits digits) : IsMantissa digits digits []
  | point {whole fraction : Text} (hwhole : IsDigits whole) (hfraction : ∀ c ∈ fraction, isDigit c) :
    IsMantissa (whole ++ '.' :: fraction) whole fraction
  | leading {digits : Text} (h : IsDigits digits) : IsMantissa ('.' :: digits) [] digits

/-- An optional power of ten. -/
inductive IsExponent : Text → Int → Prop where
  | none : IsExponent [] 0
  | marked {mark : Char} {signs digits : Text} {negative : Bool} (hmark : mark = 'e' ∨ mark = 'E')
    (hsign : IsSign signs negative) (hdigits : IsDigits digits) :
    IsExponent (mark :: (signs ++ digits)) (Binary64.signed negative (digitsValue digits))

/-- A numeral, whether it has a minus sign, and the size of the number that it denotes. -/
inductive IsNumeral : Text → Bool → WithTop ℚ → Prop where
  | infinity {signs : Text} {negative : Bool} (hsign : IsSign signs negative) :
    IsNumeral (signs ++ infinityWord) negative ⊤
  | decimal {signs mantissa exponent whole fraction : Text} {negative : Bool} {e : Int}
    (hsign : IsSign signs negative) (hmantissa : IsMantissa mantissa whole fraction)
    (hexponent : IsExponent exponent e) : IsNumeral (signs ++ (mantissa ++ exponent)) negative
      ((digitsValue whole + digitsValue fraction / 10 ^ fraction.length) * 10 ^ e : ℚ)

def Grammatical (w : Text) : Prop := ∃ negative size, IsNumeral w negative size

/-- A numeral that a text begins with, and no longer numeral is one. -/
structure IsLongest (w t : Text) : Prop where
  begins : w <+: t
  grammatical : Grammatical w
  longest : ∀ u, u <+: t → Grammatical u → u.length ≤ w.length

theorem takeDigits_suffix (t : Text) : (takeDigits t).2 <:+ t := by
  rcases htake : takeDigits t with ⟨digits, rest⟩
  obtain ⟨rfl, -⟩ := of_takeDigits htake
  exact List.suffix_append digits rest

theorem of_takeSign (h : takeSign t = (negative, rest)) :
    ∃ signs, IsSign signs negative ∧ t = signs ++ rest := by
  unfold takeSign at h
  split at h <;> obtain ⟨rfl, rfl⟩ := Prod.mk.inj h
  · exact ⟨['+'], .plus, rfl⟩
  · exact ⟨['-'], .minus, rfl⟩
  · exact ⟨[], .none, rfl⟩

theorem of_takeExponent (h : takeExponent t = (e, rest)) :
    ∃ exponent, IsExponent exponent e ∧ t = exponent ++ rest := by
  have hnone : (0, t) = (e, rest) → ∃ exponent, IsExponent exponent e ∧ t = exponent ++ rest := by
    rintro ⟨⟩
    exact ⟨[], .none, rfl⟩
  cases t with
  | nil => exact hnone h
  | cons mark after =>
    rcases hsigns : takeSign after with ⟨negative, unsigned⟩
    rcases hdigits : takeDigits unsigned with ⟨digits, others⟩
    simp only [takeExponent, hsigns, hdigits] at h
    split at h
    · rename_i hmark
      cases digits with
      | nil => exact hnone h
      | cons c digits =>
        obtain ⟨rfl, rfl⟩ := Prod.mk.inj h
        obtain ⟨signs, hsign, rfl⟩ := of_takeSign hsigns
        obtain ⟨rfl, hall, -⟩ := of_takeDigits hdigits
        exact ⟨_, .marked hmark hsign ⟨List.cons_ne_nil c digits, hall⟩, by simp⟩
    · exact hnone h

theorem takeExponent_suffix (t : Text) : (takeExponent t).2 <:+ t := by
  obtain ⟨exponent, -, ht⟩ := of_takeExponent (t := t) (e := (takeExponent t).1) rfl
  exact ⟨exponent, ht.symm⟩

/-- More digits, a point and the digits behind it belong to a mantissa that begins with digits. -/
theorem exists_takeMantissa_digits (h : IsDigits digits) (rest : Text) :
    ∃ parts, takeMantissa (digits ++ rest) = some parts ∧ parts.2.2 <:+ rest := by
  rcases htake : takeDigits rest with ⟨more, after⟩
  obtain ⟨rfl, hmore, hbreaks⟩ := of_takeDigits htake
  have hne : digits ++ more ≠ [] := by simp [h.ne_nil]
  have hall : ∀ c ∈ digits ++ more, isDigit c := isDigit_append h.digits hmore
  rw [← List.append_assoc]
  by_cases hpoint : after.head? = some '.'
  · obtain ⟨fraction, rfl⟩ := List.head?_eq_some_iff.mp hpoint
    refine ⟨_, takeMantissa_point hne hall fraction, (takeDigits_suffix fraction).trans ?_⟩
    exact (List.suffix_cons '.' fraction).trans (List.suffix_append more _)
  · exact ⟨_, takeMantissa_whole hne hall hbreaks hpoint, List.suffix_append more after⟩

/-- A mantissa is not cut short. -/
theorem IsMantissa.exists_takeMantissa (h : IsMantissa mantissa whole fraction) (rest : Text) :
    ∃ parts, takeMantissa (mantissa ++ rest) = some parts ∧ parts.2.2 <:+ rest := by
  cases h with
  | whole h => exact exists_takeMantissa_digits h rest
  | point hwhole hfraction =>
    rw [List.append_assoc, List.cons_append]
    refine ⟨_, takeMantissa_point hwhole.ne_nil hwhole.digits (fraction ++ rest), ?_⟩
    rw [takeDigits_append_left hfraction]
    exact takeDigits_suffix rest
  | leading h =>
    rw [List.cons_append]
    exact ⟨_, takeMantissa_leading h.ne_nil h.digits rest, takeDigits_suffix rest⟩

/-- A mantissa is taken as it is if nothing after it could belong to it. -/
theorem IsMantissa.takeMantissa_append (h : IsMantissa mantissa whole fraction) (hrest : Breaks rest)
    (hpoint : rest.head? ≠ some '.') :
    takeMantissa (mantissa ++ rest) = some (whole, fraction, rest) := by
  cases h with
  | whole h => exact takeMantissa_whole h.ne_nil h.digits hrest hpoint
  | point hwhole hfraction =>
    rw [List.append_assoc, List.cons_append]
    exact takeMantissa_fraction hwhole.ne_nil hwhole.digits hfraction hrest
  | leading h =>
    rw [List.cons_append, takeMantissa_leading h.ne_nil h.digits, hrest.takeDigits, List.append_nil]

theorem of_takeMantissa (h : takeMantissa t = some (whole, fraction, rest)) :
    ∃ mantissa, IsMantissa mantissa whole fraction ∧ t = mantissa ++ rest := by
  rcases htake : takeDigits t with ⟨digits, after⟩
  obtain ⟨rfl, hdigits, -⟩ := of_takeDigits htake
  unfold takeMantissa at h
  rw [htake] at h
  split at h
  · rename_i others heq
    obtain ⟨rfl, rfl⟩ := Prod.mk.inj heq
    rcases hfraction : takeDigits others with ⟨places, remaining⟩
    obtain ⟨rfl, hplaces, -⟩ := of_takeDigits hfraction
    rw [hfraction] at h
    cases places with
    | nil => cases h
    | cons c places =>
      cases h
      exact ⟨_, .leading ⟨List.cons_ne_nil c places, hplaces⟩, rfl⟩
  · cases h
  · rename_i others hne heq
    obtain ⟨rfl, rfl⟩ := Prod.mk.inj heq
    rcases hfraction : takeDigits others with ⟨places, remaining⟩
    obtain ⟨rfl, hplaces, -⟩ := of_takeDigits hfraction
    rw [hfraction] at h
    cases h
    exact ⟨_, .point ⟨hne, hdigits⟩ hplaces, by simp⟩
  · rename_i hne _ heq
    obtain ⟨rfl, rfl⟩ := Prod.mk.inj heq
    cases h
    exact ⟨_, .whole ⟨hne, hdigits⟩, rfl⟩

/-- Where an exponent begins, a mantissa has come to its end. -/
theorem IsExponent.breaks (h : IsExponent exponent e) (hne : exponent ≠ []) (rest : Text) :
    Breaks (exponent ++ rest) ∧ (exponent ++ rest).head? ≠ some '.' := by
  cases h with
  | none => exact absurd rfl hne
  | marked hmark =>
    have hmarks : isDigit 'e' = false ∧ isDigit 'E' = false := by decide
    rcases hmark with rfl | rfl
    · exact ⟨breaks_cons hmarks.1 _, by simp⟩
    · exact ⟨breaks_cons hmarks.2 _, by simp⟩

theorem IsExponent.takeExponent_append_suffix (h : IsExponent exponent e) (rest : Text) :
    (takeExponent (exponent ++ rest)).2 <:+ rest := by
  cases h with
  | none => exact takeExponent_suffix rest
  | marked hmark hsign hdigits =>
    rw [List.cons_append, List.append_assoc,
      takeExponent_marked hmark hsign hdigits.ne_nil hdigits.digits]
    exact takeDigits_suffix rest

theorem IsExponent.takeExponent_eq (h : IsExponent exponent e) : takeExponent exponent = (e, []) := by
  cases h with
  | none => rfl
  | @marked mark signs digits negative hmark hsign hdigits =>
    have hmarked := takeExponent_marked hmark hsign hdigits.ne_nil hdigits.digits []
    rwa [breaks_nil.takeDigits, List.append_nil] at hmarked

/-- An exponent is not cut off from its mantissa, and nothing else of them is either. -/
theorem IsMantissa.exists_takeExponent (h : IsMantissa mantissa whole fraction)
    (hexponent : IsExponent exponent e) (rest : Text) : ∃ parts,
    takeMantissa (mantissa ++ (exponent ++ rest)) = some parts ∧ (takeExponent parts.2.2).2 <:+ rest := by
  by_cases hne : exponent = []
  · rw [hne, List.nil_append]
    obtain ⟨parts, hparts, hsuffix⟩ := h.exists_takeMantissa rest
    exact ⟨parts, hparts, (takeExponent_suffix _).trans hsuffix⟩
  · obtain ⟨hbreaks, hpoint⟩ := hexponent.breaks hne rest
    exact ⟨_, h.takeMantissa_append hbreaks hpoint, hexponent.takeExponent_append_suffix rest⟩

theorem scan_infinity (hsign : IsSign signs negative) (rest : Text) :
    scan (signs ++ (infinityWord ++ rest)) = some (.infinity negative, rest) := by
  have hhead : ∀ c ∈ (infinityWord ++ rest).head?, c ≠ '+' ∧ c ≠ '-' := by
    rintro c ⟨⟩
    decide
  have hword : infinityWord.isPrefixOf (infinityWord ++ rest) := by simp
  simp only [scan, hsign.takeSign_append hhead, if_pos hword, List.drop_left]

/-- A numeral is not cut short. -/
theorem IsNumeral.exists_scan {size : WithTop ℚ} (h : IsNumeral w negative size) (rest : Text) :
    ∃ numeral after, scan (w ++ rest) = some (numeral, after) ∧ after <:+ rest := by
  cases h with
  | infinity hsign =>
    rw [List.append_assoc]
    exact ⟨_, rest, scan_infinity hsign rest, List.suffix_rfl⟩
  | decimal hsign hmantissa hexponent =>
    obtain ⟨⟨whole, fraction, after⟩, hparts, hsuffix⟩ := hmantissa.exists_takeExponent hexponent rest
    rw [List.append_assoc, List.append_assoc]
    exact ⟨_, _, scan_of_takeMantissa hsign hparts, hsuffix⟩

theorem value_pointed (whole fraction : Text) (e : Int) :
    (Decimal.mk (digitsValue (whole ++ fraction)) (e - fraction.length)).value =
      (digitsValue whole + digitsValue fraction / 10 ^ fraction.length) * 10 ^ e := by
  have hpower : (10 : ℚ) ^ fraction.length ≠ 0 := pow_ne_zero _ (by norm_num)
  rw [Decimal.value, digitsValue_append, zpow_sub₀ (by norm_num), zpow_natCast]
  push_cast
  field_simp

/-- A numeral and nothing else is taken to its end, as the number that it denotes. -/
theorem IsNumeral.scan_eq {size : WithTop ℚ} (h : IsNumeral w negative size) :
    ∃ numeral, scan w = some (numeral, []) ∧ numeral.isNegative = negative ∧
      numeral.magnitude = size := by
  cases h with
  | @infinity signs negative hsign =>
    have hscan := scan_infinity hsign []
    rw [List.append_nil] at hscan
    exact ⟨_, hscan, rfl, rfl⟩
  | @decimal signs mantissa exponent whole fraction negative e hsign hmantissa hexponent =>
    have hparts : takeMantissa (mantissa ++ exponent) = some (whole, fraction, exponent) := by
      by_cases hne : exponent = []
      · rw [hne]
        exact hmantissa.takeMantissa_append breaks_nil (by simp)
      · obtain ⟨hbreaks, hpoint⟩ := hexponent.breaks hne []
        rw [List.append_nil] at hbreaks hpoint
        exact hmantissa.takeMantissa_append hbreaks hpoint
    have hscan := scan_of_takeMantissa hsign hparts
    rw [hexponent.takeExponent_eq] at hscan
    exact ⟨_, hscan, rfl, congrArg _ (value_pointed whole fraction e)⟩

/-- What is taken is a numeral. -/
theorem isNumeral_of_scan (h : scan t = some (numeral, rest)) :
    ∃ w, IsNumeral w numeral.isNegative numeral.magnitude ∧ t = w ++ rest := by
  rcases hsigns : takeSign t with ⟨negative, unsigned⟩
  obtain ⟨signs, hsign, rfl⟩ := of_takeSign hsigns
  simp only [scan, hsigns] at h
  split at h
  · rename_i hword
    obtain ⟨others, rfl⟩ := List.isPrefixOf_iff_prefix.mp hword
    rw [List.drop_left] at h
    cases h
    exact ⟨_, .infinity hsign, (List.append_assoc _ _ _).symm⟩
  · obtain ⟨⟨whole, fraction, others⟩, hparts, heq⟩ := Option.map_eq_some_iff.mp h
    obtain ⟨mantissa, hmantissa, rfl⟩ := of_takeMantissa hparts
    rcases htake : takeExponent others with ⟨e, remaining⟩
    obtain ⟨exponent, hexponent, rfl⟩ := of_takeExponent htake
    have hnumeral := IsNumeral.decimal hsign hmantissa hexponent
    rw [← value_pointed] at hnumeral
    rw [htake] at heq
    cases heq
    exact ⟨_, hnumeral, by simp⟩

/-- A numeral denotes one number. -/
theorem IsNumeral.unique {negative' : Bool} {size size' : WithTop ℚ} (h : IsNumeral w negative size)
    (h' : IsNumeral w negative' size') : negative = negative' ∧ size = size' := by
  obtain ⟨numeral, hscan, rfl, rfl⟩ := h.scan_eq
  obtain ⟨other, hscan', rfl, rfl⟩ := h'.scan_eq
  cases hscan.symm.trans hscan'
  exact ⟨rfl, rfl⟩

/-- What is taken is the longest numeral that the text begins with. -/
theorem isLongest_of_scan (h : scan t = some (numeral, rest)) :
    ∃ w, IsLongest w t ∧ IsNumeral w numeral.isNegative numeral.magnitude ∧ t = w ++ rest := by
  obtain ⟨w, hw, rfl⟩ := isNumeral_of_scan h
  refine ⟨w, ⟨List.prefix_append w rest, ⟨_, _, hw⟩, ?_⟩, hw, rfl⟩
  rintro u ⟨after, hafter⟩ ⟨negative, size, hu⟩
  obtain ⟨other, remaining, hscan, hsuffix⟩ := hu.exists_scan after
  rw [hafter, h] at hscan
  cases hscan
  have hlengths := congrArg List.length hafter
  have hrest := hsuffix.length_le
  rw [List.length_append, List.length_append] at hlengths
  omega

theorem IsLongest.unique (h : IsLongest w t) (h' : IsLongest u t) : w = u := by
  have hlength : w.length = u.length :=
    Nat.le_antisymm (h'.longest w h.begins h.grammatical) (h.longest u h'.begins h'.grammatical)
  exact (List.prefix_of_prefix_length_le h.begins h'.begins hlength.le).eq_of_length hlength

theorem scan_isSome_iff : (scan t).isSome ↔ ∃ w, w <+: t ∧ Grammatical w := by
  rw [Option.isSome_iff_exists]
  constructor
  · rintro ⟨⟨numeral, rest⟩, h⟩
    obtain ⟨w, hw, rfl⟩ := isNumeral_of_scan h
    exact ⟨w, List.prefix_append w rest, _, _, hw⟩
  · rintro ⟨w, ⟨rest, rfl⟩, negative, size, hw⟩
    obtain ⟨numeral, after, hscan, -⟩ := hw.exists_scan rest
    exact ⟨_, hscan⟩

/-- The longest numeral that a text begins with is taken, as the number that it denotes. -/
theorem IsLongest.exists_scan {size : WithTop ℚ} (h : IsLongest w (w ++ rest))
    (hw : IsNumeral w negative size) : ∃ numeral, scan (w ++ rest) = some (numeral, rest) ∧
      numeral.isNegative = negative ∧ numeral.magnitude = size := by
  obtain ⟨numeral, after, hscan, -⟩ := hw.exists_scan rest
  obtain ⟨u, hu, hnumeral, heq⟩ := isLongest_of_scan hscan
  obtain rfl := h.unique hu
  obtain rfl := List.append_cancel_left heq
  obtain ⟨hnegative, hsize⟩ := hnumeral.unique hw
  exact ⟨numeral, hscan, hnegative, hsize⟩

end FormulaGrid.Numeral
