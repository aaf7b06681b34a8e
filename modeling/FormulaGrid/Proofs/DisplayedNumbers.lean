import FormulaGrid.Evaluation
import FormulaGrid.Proofs.MovedFormulas
import FormulaGrid.Proofs.NumberLayout

/-!
# Reading displayed numbers

A displayed number is read back as the number that it displays, but for the sign of a zero: the layout of
its digits is a numeral and nothing else, whose rank is that of the digits.
-/
namespace FormulaGrid

namespace NumberDisplay
open Digits Numeral Binary64

theorem isBlank_of_isDigit {c : Char} (h : isDigit c) : Text.isBlank c = false := by
  rw [Bool.eq_false_iff]
  intro hblank
  cases (RefShift.kind_of_isDigit h).symm.trans (RefShift.kind_of_isBlank hblank)

/-- However digits are laid out, they stand for the decimal with the point at their position. -/
theorem exists_denotes_layout (d : Decimal) :
    ∃ d', Denotes (layout d.digits d.pointPosition) d' ∧ d'.rank = d.rank := by
  have hne := digits_ne_nil d
  have hplace := pointPosition_sub d
  by_cases hplain : -6 < d.pointPosition ∧ (d.pointPosition ≤ 21 ∨ d.pointPosition < d.digits.length)
  · rw [layout_of_inFull hne hplain.1 hplain.2]
    by_cases hfraction : d.exponent < 0
    · exact ⟨d, denotes_of_fraction hfraction, rfl⟩
    · refine ⟨_, denotes_inFull_of_le hne (isDigit_digits d) (by omega), ?_⟩
      rw [hplace, digitsValue_digits, Decimal.rank, decimalRank_mul_pow, Int.zero_add,
        Int.toNat_of_nonneg (not_lt.mp hfraction)]
      rfl
  · rw [layout_of_withExponent hne (by omega)]
    exact ⟨d, denotes_of_places d Nat.toDigits_ne_nil (fun _ hc => isDigit_toDigits hc)
      (digitsValue_toDigits _), rfl⟩

theorem exists_denotes_magnitude (rank : Nat) : ∃ d, Denotes (magnitude rank) d ∧ d.rank = rank := by
  obtain ⟨d, hdenotes, hrank⟩ := exists_denotes_layout (Decimal.shortest rank)
  exact ⟨d, hdenotes, hrank.trans (Decimal.shortest_rank rank)⟩

theorem trim_display (x : Binary64) : Text.trim (display x) = display x := by
  cases x with
  | nan => decide
  | infinity negative => cases negative <;> decide
  | finite negative rank =>
    apply Text.trim_of_forall_not
    intro c hc
    rcases mem_display_finite hc with h | h
    · exact isBlank_of_isDigit h
    · simp only [List.mem_cons, List.not_mem_nil, or_false] at h
      rcases h with rfl | rfl | rfl | rfl <;> decide

end NumberDisplay

namespace Binary64
open NumberDisplay

variable {x x' y y' : Binary64}

/-- The number with the sign of a zero dropped. -/
def dropZeroSign (x : Binary64) : Binary64 := if x.isZero then zero false else x

/-- Numbers that are the same, or both zero. -/
def Akin (x y : Binary64) : Prop := x.dropZeroSign = y.dropZeroSign

theorem ofDecimal_dropZeroSign {d : Decimal} (negative : Bool) (rank : Fin magnitudeCount)
    (hrank : d.rank = rank) (hzero : rank.val ≠ 0) :
    ofDecimal negative d.coefficient d.exponent = (finite negative rank).dropZeroSign := by
  have hkept : (finite negative rank).dropZeroSign = .finite negative rank :=
    if_neg (mt of_decide_eq_true hzero)
  rw [ofDecimal_eq, hkept, ← ofRank_val]
  exact congrArg (ofRank negative) hrank

/-- What is displayed of a number is a numeral and nothing else. -/
theorem exists_scan_display (h : x ≠ .nan) : ∃ numeral : Numeral,
    Numeral.scan (display x) = some (numeral, []) ∧ numeral.value = x.dropZeroSign := by
  cases x with
  | nan => exact absurd rfl h
  | infinity negative =>
    refine ⟨.infinity negative, ?_, ?_⟩ <;> cases negative <;> decide
  | finite negative rank =>
    rw [display_finite]
    by_cases hzero : rank.val = 0
    · refine ⟨.decimal false 0 0, by rw [if_pos hzero]; decide, ?_⟩
      exact (if_pos (decide_eq_true hzero)).symm
    · obtain ⟨d, hdenotes, hrank⟩ := exists_denotes_magnitude rank.val
      rw [if_neg hzero]
      exact ⟨_, hdenotes.scan negative, ofDecimal_dropZeroSign negative rank hrank hzero⟩

/-- A displayed number is read back but for the sign of a zero. -/
theorem readNumber_display (x : Binary64) : readNumber (display x) = x.dropZeroSign := by
  by_cases hnan : x = .nan
  · subst hnan
    decide
  · obtain ⟨numeral, hscan, hvalue⟩ := exists_scan_display hnan
    have htrim := Text.trimStart_trim (display x)
    rw [trim_display] at htrim
    rw [readNumber, htrim, hscan]
    exact hvalue

theorem zero_eq (negative : Bool) : zero negative = .finite negative ⟨0, by decide⟩ :=
  ofRank_val negative ⟨0, by decide⟩

theorem isZero_iff : x.isZero ↔ ∃ negative, x = zero negative := by
  constructor
  · intro h
    cases x with
    | nan => cases h
    | infinity negative => cases h
    | finite negative rank =>
      have hrank : rank = ⟨0, by decide⟩ := Fin.ext (of_decide_eq_true h)
      exact ⟨negative, by rw [zero_eq, hrank]⟩
  · rintro ⟨negative, rfl⟩
    rw [zero_eq, isZero]
    decide

theorem akin_zero (negative negative' : Bool) : Akin (zero negative) (zero negative') := by
  have hdropped (negative : Bool) : (zero negative).dropZeroSign = zero false :=
    if_pos (isZero_iff.mpr ⟨negative, rfl⟩)
  exact (hdropped negative).trans (hdropped negative').symm

theorem akin_iff : Akin x y ↔ x = y ∨ ∃ negative negative', x = zero negative ∧ y = zero negative' := by
  constructor
  · intro h
    by_cases hx : x.isZero
    · by_cases hy : y.isZero
      · obtain ⟨negative, rfl⟩ := isZero_iff.mp hx
        obtain ⟨negative', rfl⟩ := isZero_iff.mp hy
        exact Or.inr ⟨negative, negative', rfl, rfl⟩
      · have hdropped : zero false = y := (if_pos hx).symm.trans (h.trans (if_neg hy))
        exact absurd (isZero_iff.mpr ⟨false, hdropped.symm⟩) hy
    · by_cases hy : y.isZero
      · have hdropped : x = zero false := (if_neg hx).symm.trans (h.trans (if_pos hy))
        exact absurd (isZero_iff.mpr ⟨false, hdropped⟩) hx
      · exact Or.inl ((if_neg hx).symm.trans (h.trans (if_neg hy)))
  · rintro (rfl | ⟨negative, negative', rfl, rfl⟩)
    · rfl
    · exact akin_zero negative negative'

/-- An operation makes akin numbers of akin ones if the sign of a zero does not matter to it. -/
theorem Akin.congr {f : Binary64 → Binary64} (h : Akin x y)
    (hzero : ∀ negative negative', Akin (f (zero negative)) (f (zero negative'))) :
    Akin (f x) (f y) := by
  rcases akin_iff.mp h with rfl | ⟨negative, negative', rfl, rfl⟩
  · rfl
  · exact hzero negative negative'

theorem Akin.display_eq (h : Akin x y) : display x = display y := by
  rcases akin_iff.mp h with rfl | ⟨negative, negative', rfl, rfl⟩
  · rfl
  · rw [display_zero, display_zero]

/-- An operator alone is no numeral. -/
theorem scan_operator {c : Char} (h : Formula.isAdditive c ∨ Formula.isMultiplicative c) :
    Numeral.scan [c] = none := by
  simp only [Formula.isAdditive, Formula.isMultiplicative, Bool.or_eq_true, beq_iff_eq] at h
  rcases h with (rfl | rfl) | (rfl | rfl) <;> decide

theorem display_ne_operator (x : Binary64) {c : Char}
    (h : Formula.isAdditive c ∨ Formula.isMultiplicative c) : display x ≠ [c] := by
  intro hdisplay
  by_cases hnan : x = .nan
  · subst hnan
    simp [display] at hdisplay
  · obtain ⟨numeral, hscan, -⟩ := exists_scan_display hnan
    rw [hdisplay, scan_operator h] at hscan
    cases hscan

/-- Numbers that are displayed alike are equal, and only a zero differs in its sign. -/
theorem akin_of_display_eq (h : display x = display y) : Akin x y := by
  have hread := congrArg readNumber h
  rwa [readNumber_display, readNumber_display] at hread

/-- A number that is displayed is read back, its display being scanned to the end, a negative zero as
zero. No display is a reference, an operator or empty. So numbers other than NaN that are displayed
alike are equal, the two zeros being so. -/
theorem displayed_numbers_read_back (x y : Binary64) :
    (x ≠ .nan → readNumber (display x) = (if x.isZero then zero false else x) ∧
      ∃ numeral, Numeral.scan (Text.trimStart (display x)) = some (numeral, [])) ∧
    (display .nan = "NaN".toList ∧ readNumber "NaN".toList = .nan) ∧
    (Reference.isReference (display x) = false ∧ display x ≠ [] ∧
      ∀ c, Formula.isAdditive c ∨ Formula.isMultiplicative c → display x ≠ [c]) ∧
    (x ≠ .nan → y ≠ .nan → display x = display y → x = y ∨ (x.isZero ∧ y.isZero)) := by
  have htrim := trim_display x
  refine ⟨fun hx => ⟨readNumber_display x, ?_⟩, ⟨rfl, by decide⟩, ⟨?_, display_ne_nil x, ?_⟩, ?_⟩
  · obtain ⟨numeral, hscan, -⟩ := exists_scan_display hx
    have hstart := Text.trimStart_trim (display x)
    rw [htrim] at hstart
    exact ⟨numeral, by rw [hstart, hscan]⟩
  · have hreference := display_not_isReference x
    rwa [htrim] at hreference
  · exact fun c hc => display_ne_operator x hc
  · intro _ _ hdisplay
    rcases akin_iff.mp (akin_of_display_eq hdisplay) with heq | ⟨negative, negative', rfl, rfl⟩
    · exact Or.inl heq
    · exact Or.inr ⟨isZero_iff.mpr ⟨_, rfl⟩, isZero_iff.mpr ⟨_, rfl⟩⟩

theorem displayed_numbers_read_back_zeros :
    (zero true ≠ .nan ∧ zero false ≠ .nan ∧ display (zero true) = display (zero false) ∧
      Formula.isAdditive '-') ∧
    readNumber (display (zero true)) = (if (zero true).isZero then zero false else zero true) ∧
    (∃ numeral, Numeral.scan (Text.trimStart (display (zero true))) = some (numeral, [])) ∧
    display (zero true) ≠ ['-'] ∧
    (zero true = zero false ∨ ((zero true).isZero ∧ (zero false).isZero)) :=
  have htrue : zero true ≠ .nan := by decide
  have hfalse : zero false ≠ .nan := by decide
  have hsame : display (zero true) = display (zero false) := by rw [display_zero, display_zero]
  have hminus : Formula.isAdditive '-' := by decide
  have hall := displayed_numbers_read_back (zero true) (zero false)
  ⟨⟨htrue, hfalse, hsame, hminus⟩, (hall.1 htrue).1, (hall.1 htrue).2,
    hall.2.2.1.2.2 '-' (Or.inl hminus), hall.2.2.2 htrue hfalse hsame⟩

theorem akin_dropZeroSign (x : Binary64) : Akin x.dropZeroSign x := by
  by_cases hx : x.isZero
  · obtain ⟨negative, rfl⟩ := isZero_iff.mp hx
    rw [dropZeroSign, if_pos hx]
    exact akin_zero false negative
  · rw [dropZeroSign, if_neg hx]
    rfl

theorem round_zero (negative : Bool) (q : Nat) : round negative 0 q = zero negative := by
  rw [round, nearestRank_zero, zero]

theorem add_comm (x y : Binary64) : x.add y = y.add x := by
  cases x <;> cases y <;> simp only [add]
  case infinity.infinity s t => by_cases h : s = t <;> simp [h, Ne.symm]
  case finite.finite s a t b => rw [Int.add_comm, Bool.and_comm]

theorem signed_zero (negative : Bool) : signed negative (units 0) = 0 := by
  cases negative <;> rfl

theorem Akin.add_right (h : Akin x x') (y : Binary64) : Akin (x.add y) (x'.add y) := by
  apply h.congr (f := (add · y))
  intro s s'
  cases y with
  | nan => rfl
  | infinity t => rfl
  | finite t b =>
    simp only [zero_eq, add, signed_zero, Int.zero_add]
    split
    · exact akin_zero _ _
    · rfl

theorem Akin.add (h : Akin x x') (h' : Akin y y') : Akin (x.add y) (x'.add y') := by
  have hleft : Akin (x.add y) (x'.add y) := h.add_right y
  have hright : Akin (x'.add y) (x'.add y') := by
    rw [add_comm x', add_comm x']
    exact h'.add_right x'
  exact hleft.trans hright

theorem Akin.neg (h : Akin x x') : Akin x.neg x'.neg := by
  apply h.congr
  intro s s'
  have hneg (s : Bool) : (zero s).neg = zero !s := by rw [zero_eq, zero_eq, Binary64.neg]
  rw [hneg, hneg]
  exact akin_zero _ _

theorem Akin.sub (h : Akin x x') (h' : Akin y y') : Akin (x.sub y) (x'.sub y') :=
  h.add h'.neg

theorem Akin.mul_right (h : Akin x x') (y : Binary64) : Akin (x.mul y) (x'.mul y) := by
  apply h.congr (f := (mul · y))
  intro s s'
  cases y with
  | nan => rfl
  | infinity t => rfl
  | finite t b =>
    simp only [zero_eq, mul, units_zero, Nat.zero_mul, round_zero]
    exact akin_zero _ _

theorem Akin.div_right (h : Akin x x') (y : Binary64) : Akin (x.div y) (x'.div y) := by
  apply h.congr (f := (div · y))
  intro s s'
  cases y with
  | nan => rfl
  | infinity t => exact akin_zero _ _
  | finite t b =>
    simp only [zero_eq, div, units_zero, Nat.zero_mul, round_zero]
    split
    · rfl
    · exact akin_zero _ _

end Binary64

end FormulaGrid
