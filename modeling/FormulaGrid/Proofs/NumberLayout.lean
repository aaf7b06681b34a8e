import FormulaGrid.Proofs.ReferenceCodec
import FormulaGrid.Proofs.ScannedNumerals
import FormulaGrid.Proofs.ShortestDigits
import FormulaGrid.Proofs.TrimmedText

/-!
# Number layout

How a number is displayed depends on its shortest digits and the place of the point alone. It makes no
difference at which magnitudes a number is first written with an exponent, and that whole numbers are
told from others: the powers of ten that are compared with have one digit, and a number has digits after
the point just if it is not whole.
-/
namespace FormulaGrid

namespace NumberDisplay
open Digits Numeral Binary64

variable {digits t rest places : Text} {position : Int} {rank c : Nat} {d : Decimal}

/-- Digits d1 ... dk that stand for 0.d1...dk * 10 ^ position, as a displayed number shows them. -/
def layout (digits : Text) (position : Int) : Text :=
  if digits.length ≤ position ∧ position ≤ 21 then
    digits ++ zeros (position - digits.length).toNat
  else if 0 < position ∧ position < digits.length then
    digits.take position.toNat ++ '.' :: digits.drop position.toNat
  else if -6 < position ∧ position ≤ 0 then
    '0' :: '.' :: zeros (-position).toNat ++ digits
  else
    let mantissa := if digits.length ≤ 1 then digits else digits.take 1 ++ '.' :: digits.drop 1
    mantissa ++ 'e' :: (if 0 < position then '+' else '-') :: Nat.toDigits 10 (position - 1).natAbs

def magnitude (rank : Nat) : Text :=
  layout (Decimal.shortest rank).digits (Decimal.shortest rank).pointPosition

theorem layout_of_inFull (hne : digits ≠ []) (hlow : -6 < position)
    (hhigh : position ≤ 21 ∨ position < digits.length) :
    layout digits position = inFull digits position := by
  have hpos := List.length_pos_iff.mpr hne
  unfold layout inFull
  split_ifs <;> first | rfl | omega

theorem layout_of_withExponent (hne : digits ≠ [])
    (h : position ≤ -6 ∨ (21 < position ∧ digits.length ≤ position)) :
    layout digits position =
      withExponent digits position (Nat.toDigits 10 (position - 1).natAbs) := by
  have hpos := List.length_pos_iff.mpr hne
  rw [layout, if_neg (by omega), if_neg (by omega), if_neg (by omega)]
  rfl

@[simp] theorem digits_ne_nil (d : Decimal) : d.digits ≠ [] := Nat.toDigits_ne_nil

theorem isDigit_digits (d : Decimal) : ∀ c ∈ d.digits, isDigit c := fun _ hc => isDigit_toDigits hc

@[simp] theorem digitsValue_digits (d : Decimal) : digitsValue d.digits = d.coefficient :=
  digitsValue_toDigits d.coefficient

@[simp] theorem pointPosition_sub (d : Decimal) : d.pointPosition - d.digits.length = d.exponent := by
  rw [Decimal.pointPosition, add_sub_cancel_left]

theorem denotes_of_fraction (h : d.exponent < 0) : Denotes (inFull d.digits d.pointPosition) d := by
  have hplace := pointPosition_sub d
  have hdenotes := denotes_inFull_of_lt (digits_ne_nil d) (isDigit_digits d)
    (show d.pointPosition < d.digits.length by omega)
  simpa using hdenotes

theorem isDigit_paddedPlaces (n : Nat) : ∀ c ∈ paddedPlaces n, isDigit c :=
  isDigit_append isDigit_zeros fun _ hc => isDigit_toDigits hc

theorem paddedPlaces_ne_nil (n : Nat) : paddedPlaces n ≠ [] := by
  simp [paddedPlaces, Nat.toDigits_ne_nil]

@[simp] theorem digitsValue_paddedPlaces (n : Nat) : digitsValue (paddedPlaces n) = n := by
  simp [paddedPlaces, digitsValue_toDigits]

theorem denotes_of_places (d : Decimal) (hne : places ≠ []) (hplaces : ∀ c ∈ places, isDigit c)
    (hvalue : digitsValue places = (d.pointPosition - 1).natAbs) :
    Denotes (withExponent d.digits d.pointPosition places) d := by
  simpa using denotes_withExponent (digits_ne_nil d) (isDigit_digits d) hne hplaces hvalue

/-- A number is written with its own digits, unless it is whole and has no exponent. -/
theorem exists_written (negative : Bool)
    (h : (Decimal.shortest rank).exponent < 0 ∨ 16 < (Decimal.shortest rank).pointPosition) :
    ∃ t, written negative rank = sign negative ++ t ∧ Denotes t (Decimal.shortest rank) := by
  unfold written
  generalize Decimal.shortest rank = d at h ⊢
  refine ⟨_, rfl, ?_⟩
  have hplace := pointPosition_sub d
  split
  · rw [if_neg (by omega), List.append_nil]
    exact denotes_of_fraction (by omega)
  · exact denotes_of_places d (paddedPlaces_ne_nil _) (isDigit_paddedPlaces _)
      (digitsValue_paddedPlaces _)

theorem rewritten_eq (h : Denotes t d) (change : Decimal → Decimal) (negative : Bool) :
    rewritten change (sign negative ++ t) =
      sign negative ++ inFull (change d).digits (change d).pointPosition := by
  rw [rewritten, h.scan]

theorem rewritten_fraction (negative : Bool) (h : (Decimal.shortest rank).exponent < 0) :
    rewritten id (written negative rank) = sign negative ++
      inFull (Decimal.shortest rank).digits (Decimal.shortest rank).pointPosition := by
  obtain ⟨t, hwritten, hdenotes⟩ := exists_written negative (Or.inl h)
  rw [hwritten, rewritten_eq hdenotes, id_eq]

theorem toDigits_mul_pow (hc : c ≠ 0) (j : Nat) :
    Nat.toDigits 10 (c * 10 ^ j) = Nat.toDigits 10 c ++ zeros j := by
  induction j with
  | zero => simp [zeros]
  | succ j ih =>
    have hpos : 0 < c * 10 ^ j := Nat.mul_pos (Nat.pos_of_ne_zero hc) (Nat.pow_pos (by decide))
    have hlast := Nat.toDigits_append_toDigits (b := 10) (by decide) hpos (show 0 < 10 by decide)
    have hnumber : c * 10 ^ (j + 1) = 10 * (c * 10 ^ j) + 0 := by
      rw [Nat.pow_succ]
      ring
    rw [hnumber, ← hlast, ih, List.append_assoc, zeros, zeros, List.replicate_succ']
    rfl

theorem whole_mul_ten (c : Nat) : whole ⟨c * 10, -1⟩ = ⟨c, 0⟩ := by
  have hround : halfEven (c * 10) 10 = c := halfEven_of_mul (by decide)
  have hfraction : ¬(0 : Int) ≤ -1 := by decide
  unfold whole
  dsimp only
  rw [if_neg hfraction]
  exact congrArg (Decimal.mk · 0) hround

theorem inFull_mul_pow (hc : c ≠ 0) (j : Nat) :
    inFull (Decimal.mk (c * 10 ^ j) 0).digits (Decimal.mk (c * 10 ^ j) 0).pointPosition =
      Nat.toDigits 10 c ++ zeros j := by
  have hplace : (Decimal.mk (c * 10 ^ j) 0).pointPosition = (Decimal.mk (c * 10 ^ j) 0).digits.length := by
    rw [Decimal.pointPosition, Int.add_zero]
  rw [inFull_of_le (digits_ne_nil _) hplace.ge, hplace, sub_self, Decimal.digits, toDigits_mul_pow hc]
  exact List.append_nil _

/-- A whole number is laid out with its own digits, whether or not it is written with an exponent. -/
theorem rewritten_whole (hrank : rank ≠ 0) (negative : Bool)
    (h : 0 ≤ (Decimal.shortest rank).exponent) :
    rewritten whole (written negative rank) = sign negative ++
      inFull (Decimal.shortest rank).digits (Decimal.shortest rank).pointPosition := by
  by_cases hplace : (Decimal.shortest rank).pointPosition ≤ 16
  · have hne := Decimal.coefficient_ne_zero hrank (Decimal.shortest_rank rank)
    unfold written
    generalize Decimal.shortest rank = d at h hplace hne ⊢
    have hposition := pointPosition_sub d
    have hlength := d.digits_length_pos
    have hle : d.digits.length ≤ d.pointPosition := by omega
    dsimp only
    rw [if_pos (by omega), if_pos hle,
      rewritten_eq (denotes_inFull_point_zero (digits_ne_nil d) (isDigit_digits d) hle),
      whole_mul_ten, digitsValue_digits, inFull_mul_pow hne, inFull_of_le (digits_ne_nil d) hle,
      Decimal.digits]
  · obtain ⟨t, hwritten, hdenotes⟩ := exists_written negative (Or.inr (not_le.mp hplace))
    rw [hwritten, rewritten_eq hdenotes, whole, if_pos h]

theorem trimExponents_append (h : 'e' ∉ t) (rest : Text) :
    trimExponents (t ++ rest) = t ++ trimExponents rest := by
  induction t with
  | nil => rfl
  | cons c t ih =>
    rw [List.mem_cons, not_or] at h
    rw [List.cons_append, trimExponents, ih h.2, List.cons_append]
    rintro sign others hc -
    exact h.1 hc.symm

theorem trimExponents_places (hne : places ≠ []) (hplaces : ∀ c ∈ places, isDigit c) (positive : Prop)
    [Decidable positive] : trimExponents ('e' :: (if positive then '+' else '-') :: places) =
      'e' :: (if positive then '+' else '-') :: trimZeros places := by
  have hsign : (if positive then '+' else '-') = '+' ∨ (if positive then '+' else '-') = '-' := by
    split <;> simp
  have htake : places.takeWhile isDigit = places := List.takeWhile_eq_self_iff.mpr hplaces
  have hdrop : places.dropWhile isDigit = [] := List.dropWhile_eq_nil_iff.mpr hplaces
  have hend : trimExponents [] = [] := by rw [trimExponents]
  rw [trimExponents, htake, hdrop, hend, if_pos ⟨hsign, hne⟩, List.append_nil]

theorem trimZeros_paddedPlaces (n : Nat) : trimZeros (paddedPlaces n) = Nat.toDigits 10 n := by
  have hzeros (m : Nat) (t : Text) : (zeros m ++ t).dropWhile (· == '0') = t.dropWhile (· == '0') := by
    refine List.dropWhile_append_of_pos fun c hc => ?_
    rw [List.eq_of_mem_replicate hc]
    rfl
  unfold trimZeros
  rw [paddedPlaces, hzeros]
  rcases IntegerText.toDigits_shape n with hzero | ⟨c, t, hshape, hc, -⟩
  · rw [hzero]
    decide
  · have hfirst : (c == '0') = false := by
      rw [beq_eq_false_iff_ne]
      rintro rfl
      exact absurd hc (by decide)
    rw [hshape, List.dropWhile_cons_of_neg (by simp [hfirst])]

/-- With an exponent, only the leading zero of the exponent is not displayed. -/
theorem trimExponents_written (negative : Bool)
    (h : (Decimal.shortest rank).pointPosition ≤ -4 ∨ 16 < (Decimal.shortest rank).pointPosition) :
    trimExponents (written negative rank) = sign negative ++
      withExponent (Decimal.shortest rank).digits (Decimal.shortest rank).pointPosition
        (Nat.toDigits 10 ((Decimal.shortest rank).pointPosition - 1).natAbs) := by
  have hletter : isDigit 'e' = false := by decide
  unfold written
  generalize Decimal.shortest rank = d at h ⊢
  have hdigits : 'e' ∉ d.digits := by
    intro hmem
    rw [isDigit_digits d _ hmem] at hletter
    cases hletter
  have hmantissa : 'e' ∉ sign negative ++
      (if d.digits.length ≤ 1 then d.digits else d.digits.take 1 ++ '.' :: d.digits.drop 1) := by
    have htake : 'e' ∉ d.digits.take 1 := fun hmem => hdigits (List.mem_of_mem_take hmem)
    have hdrop : 'e' ∉ d.digits.drop 1 := fun hmem => hdigits (List.mem_of_mem_drop hmem)
    have hsign : 'e' ∉ sign negative := by cases negative <;> decide
    rw [List.drop_one] at hdrop
    split <;> simp [hsign, hdigits, htake, hdrop]
  dsimp only
  rw [if_neg (by omega), withExponent, withExponent, ← List.append_assoc,
    trimExponents_append hmantissa, trimExponents_places (paddedPlaces_ne_nil _) (isDigit_paddedPlaces _),
    trimZeros_paddedPlaces, List.append_assoc]

theorem integer?_isSome (negative : Bool) (rank : Fin magnitudeCount) :
    (finite negative rank).integer?.isSome ↔ units rank % unitsPerOne = 0 := by
  rw [integer?]
  split <;> simp_all

/-- However a number is written, its display is the layout of its digits. -/
theorem display_finite (negative : Bool) (rank : Fin magnitudeCount) :
    display (.finite negative rank) =
      if rank.val = 0 then ['0'] else sign negative ++ magnitude rank.val := by
  rw [display]
  by_cases hrank : rank.val = 0
  · rw [if_pos hrank, if_pos hrank]
  have hwhole : (finite negative rank).integer?.isSome ↔ 0 ≤ (Decimal.shortest rank.val).exponent :=
    (integer?_isSome negative rank).trans (Decimal.shortest_exponent_nonneg_iff hrank).symm
  have hlarge : rank.val < decimalRank 1 21 ↔ (Decimal.shortest rank.val).pointPosition ≤ 21 :=
    Decimal.lt_decimalRank_iff hrank (by decide +kernel)
  have hsmall : rank.val < decimalRank 1 (-6) ↔ (Decimal.shortest rank.val).pointPosition ≤ -6 :=
    Decimal.lt_decimalRank_iff hrank (by decide +kernel)
  have hfew := Decimal.shortest_length_le hrank
  have hplace := pointPosition_sub (Decimal.shortest rank.val)
  have hne := digits_ne_nil (Decimal.shortest rank.val)
  rw [if_neg hrank, if_neg hrank, magnitude]
  split
  · rename_i h
    rw [hwhole, hlarge] at h
    rw [rewritten_whole hrank negative h.1, layout_of_inFull hne (by omega) (Or.inl h.2)]
  · rename_i hother
    rw [hwhole, hlarge] at hother
    split
    · rename_i h
      rw [← not_lt, hsmall, hlarge] at h
      rw [rewritten_fraction negative (by omega), layout_of_inFull hne (by omega) (Or.inl h.2)]
    · rename_i h
      rw [← not_lt, hsmall, hlarge] at h
      rw [trimExponents_written negative (by omega), layout_of_withExponent hne (by omega)]

theorem digits_head_ne_zero (h : d.coefficient ≠ 0) : d.digits.head? ≠ some '0' := by
  rcases IntegerText.toDigits_shape d.coefficient with hzero | ⟨c, t, hshape, hc, -⟩
  · have hvalue := digitsValue_digits d
    have hnone : digitsValue ['0'] = 0 := by decide
    rw [Decimal.digits, hzero, hnone] at hvalue
    exact absurd hvalue.symm h
  · rw [Decimal.digits, hshape, List.head?_cons, ne_eq, Option.some.injEq]
    rintro rfl
    exact absurd hc (by decide)

theorem digits_getLast_ne_zero (h : d.coefficient % 10 ≠ 0) : d.digits.getLast? ≠ some '0' := by
  have hdigit : ∀ n < 10, n ≠ 0 → Nat.digitChar n ≠ '0' := by decide
  have hlast := hdigit _ (Nat.mod_lt d.coefficient (by decide)) h
  rw [Decimal.digits, Nat.toDigits_eq_if (by decide)]
  split
  · rename_i hsmall
    rw [Nat.mod_eq_of_lt hsmall] at hlast
    simpa using hlast
  · simpa using hlast

theorem value_eq_digits (d : Decimal) :
    d.value = digitsValue d.digits / 10 ^ d.digits.length * 10 ^ d.pointPosition := by
  have hten : (10 : ℚ) ^ d.digits.length ≠ 0 := by positivity
  rw [digitsValue_digits, Decimal.pointPosition, Decimal.ten_pow_add, zpow_natCast, ← mul_assoc,
    div_mul_cancel₀ _ hten, Decimal.value]

/-- A number other than zero is displayed by its sign and the layout of its shortest digits d1 ... dk, where
the number is 0.d1...dk * 10 ^ position. These digits are the only ones that are shortest, and neither
begin nor end with a zero. -/
theorem display_shortest_layout (negative : Bool) (rank : Fin magnitudeCount) (hrank : rank.val ≠ 0) :
    ∃ d : Decimal, (d.IsShortest rank ∧ ∀ d' : Decimal, d'.IsShortest rank → d' = d) ∧
      d.digits.head? ≠ some '0' ∧ d.digits.getLast? ≠ some '0' ∧
      d.value = digitsValue d.digits / 10 ^ d.digits.length * 10 ^ d.pointPosition ∧
      display (.finite negative rank) = sign negative ++ layout d.digits d.pointPosition := by
  have hshortest := Decimal.isShortest_shortest hrank
  refine ⟨Decimal.shortest rank, ⟨hshortest, fun d' h => h.eq hrank⟩,
    digits_head_ne_zero (Decimal.coefficient_ne_zero hrank hshortest.reads),
    digits_getLast_ne_zero hshortest.stripped, value_eq_digits _, ?_⟩
  rw [display_finite, if_neg hrank, magnitude]

/-- The rank of 10 ^ 21, the least whole number that is displayed with an exponent. -/
def leastWithExponent : Fin magnitudeCount := ⟨decimalRank 1 21, by decide +kernel⟩

theorem display_shortest_layout_whole : leastWithExponent.val ≠ 0 ∧
    ∃ d : Decimal, (d.IsShortest leastWithExponent ∧
        ∀ d' : Decimal, d'.IsShortest leastWithExponent → d' = d) ∧
      d.digits.head? ≠ some '0' ∧ d.digits.getLast? ≠ some '0' ∧
      d.value = digitsValue d.digits / 10 ^ d.digits.length * 10 ^ d.pointPosition ∧
      display (.finite true leastWithExponent) = sign true ++ layout d.digits d.pointPosition :=
  have hrank : leastWithExponent.val ≠ 0 := by decide +kernel
  ⟨hrank, display_shortest_layout true leastWithExponent hrank⟩

example : display (ofDecimal true 1 21) = "-1e+21".toList := by decide +kernel

example : display (ofDecimal false 15 (-7)) = "0.0000015".toList := by decide +kernel

theorem layout_ne_nil (h : digits ≠ []) (position : Int) : layout digits position ≠ [] := by
  unfold layout
  split
  · simp [h]
  split
  · simp
  split
  · simp
  · simp

theorem display_ne_nil (x : Binary64) : display x ≠ [] := by
  cases x with
  | nan => decide
  | infinity negative => cases negative <;> decide
  | finite negative rank =>
    have hmagnitude : magnitude rank.val ≠ [] := layout_ne_nil (digits_ne_nil _) _
    rw [display_finite]
    split <;> simp [hmagnitude]

theorem mem_layout {c : Char} (h : c ∈ layout digits position) :
    c ∈ digits ∨ isDigit c ∨ c ∈ ['.', 'e', '+', '-'] := by
  unfold layout at h
  split at h
  · rcases List.mem_append.mp h with h | h
    · exact Or.inl h
    · exact Or.inr (Or.inl (isDigit_zeros c h))
  split at h
  · rcases List.mem_append.mp h with h | h
    · exact Or.inl (List.mem_of_mem_take h)
    · rcases List.mem_cons.mp h with rfl | h
      · simp
      · exact Or.inl (List.mem_of_mem_drop h)
  split at h
  · simp only [List.cons_append, List.mem_cons, List.mem_append] at h
    rcases h with rfl | rfl | h | h
    · exact Or.inr (Or.inl (by decide))
    · simp
    · exact Or.inr (Or.inl (isDigit_zeros c h))
    · exact Or.inl h
  · rcases List.mem_append.mp h with h | h
    · split at h
      · exact Or.inl h
      · rcases List.mem_append.mp h with h | h
        · exact Or.inl (List.mem_of_mem_take h)
        · rcases List.mem_cons.mp h with rfl | h
          · simp
          · exact Or.inl (List.mem_of_mem_drop h)
    · simp only [List.mem_cons] at h
      rcases h with rfl | rfl | h
      · simp
      · split <;> simp
      · exact Or.inr (Or.inl (isDigit_toDigits h))

/-- The characters of a displayed number that is finite. -/
theorem mem_display_finite {negative : Bool} {rank : Fin magnitudeCount} {c : Char}
    (h : c ∈ display (.finite negative rank)) : isDigit c ∨ c ∈ ['.', 'e', '+', '-'] := by
  rw [display_finite] at h
  split at h
  · rw [List.mem_singleton.mp h]
    exact Or.inl (by decide)
  rcases List.mem_append.mp h with h | h
  · cases negative with
    | true => simp [List.mem_singleton.mp h]
    | false => cases h
  · rcases mem_layout h with h | h
    · exact Or.inl (isDigit_toDigits h)
    · exact h

theorem not_isReference_of_not_isLetter (h : ∀ c ∈ t, Reference.isLetter c = false) :
    Reference.isReference t = false := by
  cases t with
  | nil => decide
  | cons c t =>
    have hc : Reference.isLetter c = false := h c (by simp)
    simp [Reference.isReference, Reference.split?, hc]

/-- A displayed number is no reference, since only NaN and the infinities have a capital letter, and
no digit follows it. -/
theorem display_not_isReference (x : Binary64) :
    Reference.isReference (Text.trim (display x)) = false := by
  cases x with
  | nan => decide
  | infinity negative => cases negative <;> decide
  | finite negative rank =>
    apply not_isReference_of_not_isLetter
    intro c hc
    rcases mem_display_finite (Text.mem_of_mem_trim hc) with h | h
    · exact Reference.not_isLetter_of_isDigit h
    · simp only [List.mem_cons, List.not_mem_nil, or_false] at h
      rcases h with rfl | rfl | rfl | rfl <;> decide

end NumberDisplay

end FormulaGrid
