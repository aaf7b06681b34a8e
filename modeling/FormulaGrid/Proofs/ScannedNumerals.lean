import FormulaGrid.NumberDisplay
import Mathlib.Data.List.Induction
import Mathlib.Data.List.TakeDrop
import Mathlib.Data.List.TakeWhile
import Mathlib.Tactic.Ring

/-!
# Scanning numerals

A text of digits, with a point among them or an exponent behind them, is scanned to its end, and denotes
the decimal of its digits with the point at their position.
-/
namespace FormulaGrid

namespace Digits

variable {digits : Text}

theorem digitsValue_append (digits others : Text) :
    digitsValue (digits ++ others) = digitsValue digits * 10 ^ others.length + digitsValue others := by
  induction others using List.reverseRecOn with
  | nil => simp [digitsValue]
  | append_singleton others c ih =>
    rw [← List.append_assoc, digitsValue_append_singleton, digitsValue_append_singleton, ih,
      List.length_append, List.length_singleton, Nat.pow_succ]
    ring

@[simp] theorem digitsValue_zeros (n : Nat) : digitsValue (NumberDisplay.zeros n) = 0 := by
  induction n with
  | zero => rfl
  | succ n ih =>
    have hzero : (digitValue? '0').getD 0 = 0 := by decide
    rw [NumberDisplay.zeros, List.replicate_succ', digitsValue_append_singleton, hzero]
    exact congrArg (10 * ·) ih

/-- Zeros in front do not count. -/
@[simp] theorem digitsValue_zeros_append (n : Nat) (digits : Text) :
    digitsValue (NumberDisplay.zeros n ++ digits) = digitsValue digits := by
  rw [digitsValue_append, digitsValue_zeros, Nat.zero_mul, Nat.zero_add]

/-- Zeros at the end count as powers of ten. -/
@[simp] theorem digitsValue_append_zeros (digits : Text) (n : Nat) :
    digitsValue (digits ++ NumberDisplay.zeros n) = digitsValue digits * 10 ^ n := by
  rw [digitsValue_append, digitsValue_zeros, Nat.add_zero, NumberDisplay.zeros, List.length_replicate]

theorem isDigit_zeros {n : Nat} : ∀ c ∈ NumberDisplay.zeros n, isDigit c := by
  intro c hc
  rw [List.eq_of_mem_replicate hc]
  decide

theorem isDigit_append {others : Text} (h : ∀ c ∈ digits, isDigit c) (h' : ∀ c ∈ others, isDigit c) :
    ∀ c ∈ digits ++ others, isDigit c := by
  simpa [or_imp, forall_and] using ⟨h, h'⟩

end Digits

namespace Numeral
open Digits NumberDisplay

variable {t digits whole fraction rest places signs : Text} {position : Int} {negative : Bool} {mark : Char}

/-- An optional sign, and whether it is a minus. -/
inductive IsSign : Text → Bool → Prop where
  | none : IsSign [] false
  | plus : IsSign ['+'] false
  | minus : IsSign ['-'] true

theorem isSign_sign (negative : Bool) : IsSign (sign negative) negative := by
  cases negative with
  | false => exact .none
  | true => exact .minus

theorem IsSign.takeSign_append (h : IsSign signs negative) (ht : ∀ c ∈ t.head?, c ≠ '+' ∧ c ≠ '-') :
    takeSign (signs ++ t) = (negative, t) := by
  cases h with
  | plus => rfl
  | minus => rfl
  | none =>
    rw [List.nil_append]
    unfold takeSign
    split
    · exact absurd rfl (ht '+' rfl).1
    · exact absurd rfl (ht '-' rfl).2
    · rfl

theorem ne_sign_of_isDigit {c : Char} (hc : isDigit c) : c ≠ '+' ∧ c ≠ '-' := by
  have hsigns : isDigit '+' = false ∧ isDigit '-' = false := by decide
  refine ⟨?_, ?_⟩ <;> rintro rfl <;> simp_all

/-- A text in which no digit comes next. -/
def Breaks (rest : Text) : Prop := ∀ c ∈ rest.head?, isDigit c = false

@[simp] theorem breaks_nil : Breaks [] := by simp [Breaks]

theorem breaks_cons {c : Char} (hc : isDigit c = false) (rest : Text) : Breaks (c :: rest) := by
  simpa [Breaks] using hc

theorem of_takeDigits (h : takeDigits t = (digits, rest)) :
    t = digits ++ rest ∧ (∀ c ∈ digits, isDigit c) ∧ Breaks rest := by
  rw [takeDigits, List.span_eq_takeWhile_dropWhile] at h
  obtain ⟨rfl, rfl⟩ := Prod.mk.inj h
  refine ⟨List.takeWhile_append_dropWhile.symm, fun c => List.mem_takeWhile_imp, fun c hc => ?_⟩
  have hhead := List.head?_dropWhile_not isDigit t
  rw [hc] at hhead
  simpa using hhead

theorem takeDigits_append_left (hdigits : ∀ c ∈ digits, isDigit c) (rest : Text) :
    takeDigits (digits ++ rest) = (digits ++ (takeDigits rest).1, (takeDigits rest).2) := by
  simp only [takeDigits, List.span_eq_takeWhile_dropWhile, List.takeWhile_append_of_pos hdigits,
    List.dropWhile_append_of_pos hdigits]

theorem Breaks.takeDigits (hrest : Breaks rest) : takeDigits rest = ([], rest) := by
  rw [Numeral.takeDigits, List.span_eq_takeWhile_dropWhile]
  cases rest with
  | nil => rfl
  | cons c rest =>
    have hc : isDigit c = false := hrest c rfl
    simp [hc]

theorem takeDigits_append (hdigits : ∀ c ∈ digits, isDigit c) (hrest : Breaks rest) :
    takeDigits (digits ++ rest) = (digits, rest) := by
  rw [takeDigits_append_left hdigits, hrest.takeDigits, List.append_nil]

theorem takeMantissa_whole (hne : digits ≠ []) (hdigits : ∀ c ∈ digits, isDigit c)
    (hrest : Breaks rest) (hpoint : rest.head? ≠ some '.') :
    takeMantissa (digits ++ rest) = some (digits, [], rest) := by
  unfold takeMantissa
  rw [takeDigits_append hdigits hrest]
  cases digits with
  | nil => exact absurd rfl hne
  | cons c digits =>
    split
    · simp_all
    · simp_all
    · simp_all
    · simp_all

/-- Behind a point as many digits are taken as there are. -/
theorem takeMantissa_point (hne : whole ≠ []) (hwhole : ∀ c ∈ whole, isDigit c) (t : Text) :
    takeMantissa (whole ++ '.' :: t) = some (whole, (takeDigits t).1, (takeDigits t).2) := by
  have hpoint : Breaks ('.' :: t) := breaks_cons (by decide) _
  unfold takeMantissa
  rw [takeDigits_append hwhole hpoint]
  cases whole with
  | nil => exact absurd rfl hne
  | cons c whole => rfl

theorem takeMantissa_fraction (hne : whole ≠ []) (hwhole : ∀ c ∈ whole, isDigit c)
    (hfraction : ∀ c ∈ fraction, isDigit c) (hrest : Breaks rest) :
    takeMantissa (whole ++ '.' :: (fraction ++ rest)) = some (whole, fraction, rest) := by
  rw [takeMantissa_point hne hwhole, takeDigits_append hfraction hrest]

/-- A point that comes first has to be followed by a digit. -/
theorem takeMantissa_leading (hne : digits ≠ []) (hdigits : ∀ c ∈ digits, isDigit c) (rest : Text) :
    takeMantissa ('.' :: (digits ++ rest)) =
      some ([], digits ++ (takeDigits rest).1, (takeDigits rest).2) := by
  have hpoint : Breaks ('.' :: (digits ++ rest)) := breaks_cons (by decide) _
  obtain ⟨c, others, rfl⟩ := List.exists_cons_of_ne_nil hne
  simp only [takeMantissa, hpoint.takeDigits, takeDigits_append_left hdigits]
  rfl

/-- An exponent takes all digits that follow its mark and its sign. -/
theorem takeExponent_marked (hmark : mark = 'e' ∨ mark = 'E') (hsign : IsSign signs negative)
    (hne : digits ≠ []) (hdigits : ∀ c ∈ digits, isDigit c) (rest : Text) :
    takeExponent (mark :: (signs ++ (digits ++ rest))) =
      (Binary64.signed negative (digitsValue (digits ++ (takeDigits rest).1)), (takeDigits rest).2) := by
  obtain ⟨c, others, rfl⟩ := List.exists_cons_of_ne_nil hne
  have hsigned : takeSign (signs ++ (c :: others ++ rest)) = (negative, c :: others ++ rest) := by
    apply hsign.takeSign_append
    rintro d ⟨⟩
    exact ne_sign_of_isDigit (hdigits c (by simp))
  simp only [takeExponent, if_pos hmark, hsigned, takeDigits_append_left hdigits]
  rfl

/-- A mantissa begins with a digit or a point. -/
theorem exists_cons_of_takeMantissa {parts : Text × Text × Text} (h : takeMantissa t = some parts) :
    ∃ c rest, t = c :: rest ∧ (isDigit c ∨ c = '.') := by
  cases t with
  | nil => cases h
  | cons c rest =>
    refine ⟨c, rest, rfl, ?_⟩
    by_contra hc
    rw [not_or, Bool.not_eq_true] at hc
    have hnone : takeDigits (c :: rest) = ([], c :: rest) := by
      simp [takeDigits, List.span_eq_takeWhile_dropWhile, hc.1]
    unfold takeMantissa at h
    rw [hnone] at h
    split at h <;> simp_all

theorem scan_of_takeMantissa (hsign : IsSign signs negative)
    (h : takeMantissa t = some (whole, fraction, rest)) :
    scan (signs ++ t) = some (.decimal negative (digitsValue (whole ++ fraction))
      ((takeExponent rest).1 - fraction.length), (takeExponent rest).2) := by
  obtain ⟨c, others, rfl, hc⟩ := exists_cons_of_takeMantissa h
  have hletter : isDigit 'I' = false := by decide
  have hword : infinityWord.isPrefixOf (c :: others) = false := by
    have hfirst : ('I' == c) = false := by
      rw [beq_eq_false_iff_ne]
      rintro rfl
      rcases hc with hc | hc
      · simp [hletter] at hc
      · cases hc
    have hspelled : infinityWord = ['I', 'n', 'f', 'i', 'n', 'i', 't', 'y'] := by decide
    rw [hspelled, List.isPrefixOf, hfirst, Bool.false_and]
  have hsigned : takeSign (signs ++ c :: others) = (negative, c :: others) := by
    apply hsign.takeSign_append
    rintro d ⟨⟩
    rcases hc with hc | rfl
    · exact ne_sign_of_isDigit hc
    · decide
  simp [scan, hsigned, hword, h]

/-- The text is a numeral without a sign and nothing else, and denotes this decimal. -/
def Denotes (t : Text) (d : Decimal) : Prop :=
  ∃ whole fraction rest exponent, takeMantissa t = some (whole, fraction, rest) ∧
    takeExponent rest = (exponent, []) ∧
    d = ⟨digitsValue (whole ++ fraction), exponent - fraction.length⟩

theorem Denotes.scan {d : Decimal} (h : Denotes t d) (negative : Bool) :
    scan (sign negative ++ t) = some (.decimal negative d.coefficient d.exponent, []) := by
  obtain ⟨whole, fraction, rest, exponent, hmantissa, hexponent, rfl⟩ := h
  rw [scan_of_takeMantissa (isSign_sign negative) hmantissa, hexponent]

theorem denotes_whole (hne : digits ≠ []) (hdigits : ∀ c ∈ digits, isDigit c) :
    Denotes digits ⟨digitsValue digits, 0⟩ := by
  have hmantissa : takeMantissa (digits ++ []) = some (digits, [], []) :=
    takeMantissa_whole hne hdigits breaks_nil (by simp)
  rw [List.append_nil] at hmantissa
  exact ⟨_, _, _, 0, hmantissa, rfl, by simp⟩

theorem denotes_fraction (hne : whole ≠ []) (hwhole : ∀ c ∈ whole, isDigit c)
    (hfraction : ∀ c ∈ fraction, isDigit c) :
    Denotes (whole ++ '.' :: fraction) ⟨digitsValue (whole ++ fraction), -fraction.length⟩ := by
  have hmantissa : takeMantissa (whole ++ '.' :: (fraction ++ [])) = some (whole, fraction, []) :=
    takeMantissa_fraction hne hwhole hfraction breaks_nil
  rw [List.append_nil] at hmantissa
  exact ⟨_, _, _, 0, hmantissa, rfl, by rw [Int.zero_sub]⟩

/-- With the point among the digits or before them. -/
theorem denotes_inFull_of_lt (hne : digits ≠ []) (hdigits : ∀ c ∈ digits, isDigit c)
    (h : position < digits.length) :
    Denotes (inFull digits position) ⟨digitsValue digits, position - digits.length⟩ := by
  unfold inFull
  split
  · have hplain := isDigit_append (isDigit_zeros (n := (-position).toNat)) hdigits
    have hzero : ∀ c ∈ ['0'], isDigit c := List.forall_mem_singleton.mpr (by decide)
    have hfraction := denotes_fraction (List.cons_ne_nil '0' []) hzero hplain
    have hvalue : digitsValue (['0'] ++ (zeros (-position).toNat ++ digits)) = digitsValue digits := by
      rw [← List.append_assoc]
      exact digitsValue_zeros_append ((-position).toNat + 1) digits
    have hplaces : -((zeros (-position).toNat ++ digits).length : Int) = position - digits.length := by
      rw [List.length_append, zeros, List.length_replicate]
      omega
    rwa [hvalue, hplaces] at hfraction
  · have hwhole : digits.take position.toNat ≠ [] := by
      simp [hne]
      omega
    have hfraction := denotes_fraction hwhole (fun c hc => hdigits c (List.mem_of_mem_take hc))
      (fun c (hc : c ∈ digits.drop position.toNat) => hdigits c (List.mem_of_mem_drop hc))
    have hplaces : -((digits.drop position.toNat).length : Int) = position - digits.length := by
      rw [List.length_drop]
      omega
    rwa [List.take_append_drop, hplaces] at hfraction

theorem inFull_of_le (hne : digits ≠ []) (h : digits.length ≤ position) :
    inFull digits position = digits ++ zeros (position - digits.length).toNat := by
  have hpos := List.length_pos_iff.mpr hne
  rw [inFull, if_neg (by omega), if_neg (by omega)]

/-- With the point behind all the digits. -/
theorem denotes_inFull_of_le (hne : digits ≠ []) (hdigits : ∀ c ∈ digits, isDigit c)
    (h : digits.length ≤ position) : Denotes (inFull digits position)
      ⟨digitsValue digits * 10 ^ (position - digits.length).toNat, 0⟩ := by
  rw [inFull_of_le hne h, ← digitsValue_append_zeros]
  exact denotes_whole (by simp [hne]) (isDigit_append hdigits isDigit_zeros)

theorem denotes_inFull_point_zero (hne : digits ≠ []) (hdigits : ∀ c ∈ digits, isDigit c)
    (h : digits.length ≤ position) : Denotes (inFull digits position ++ ['.', '0'])
      ⟨digitsValue digits * 10 ^ (position - digits.length).toNat * 10, -1⟩ := by
  have hzero : ∀ c ∈ ['0'], isDigit c := List.forall_mem_singleton.mpr (by decide)
  have hfraction := denotes_fraction (by simp [hne])
    (isDigit_append hdigits (isDigit_zeros (n := (position - digits.length).toNat))) hzero
  have hone : ['0'] = zeros 1 := rfl
  have hvalue : digitsValue (digits ++ zeros (position - digits.length).toNat ++ ['0']) =
      digitsValue digits * 10 ^ (position - digits.length).toNat * 10 := by
    rw [hone, digitsValue_append_zeros, digitsValue_append_zeros, Nat.pow_one]
  rw [hvalue] at hfraction
  rw [inFull_of_le hne h]
  exact hfraction

theorem denotes_withExponent (hne : digits ≠ []) (hdigits : ∀ c ∈ digits, isDigit c)
    (hplaces : places ≠ []) (hplain : ∀ c ∈ places, isDigit c)
    (hvalue : digitsValue places = (position - 1).natAbs) :
    Denotes (withExponent digits position places) ⟨digitsValue digits, position - digits.length⟩ := by
  have hpos := List.length_pos_iff.mpr hne
  have hsign : IsSign [if 0 < position then '+' else '-'] (!decide (0 < position)) := by
    by_cases hposition : 0 < position
    · simpa [hposition] using IsSign.plus
    · simpa [hposition] using IsSign.minus
  have hexponent : takeExponent ('e' :: (if 0 < position then '+' else '-') :: places) =
      (position - 1, []) := by
    have hmarked := takeExponent_marked (Or.inl rfl) hsign hplaces hplain []
    have hsigned : Binary64.signed (!decide (0 < position)) (position - 1).natAbs = position - 1 := by
      unfold Binary64.signed
      by_cases hposition : 0 < position
      · rw [decide_eq_true hposition]
        exact Int.natAbs_of_nonneg (by omega)
      · rw [decide_eq_false hposition]
        show -((position - 1).natAbs : Int) = position - 1
        omega
    rw [breaks_nil.takeDigits, List.append_nil, hvalue, hsigned] at hmarked
    exact hmarked
  have hbreaks (t : Text) : Breaks ('e' :: t) := breaks_cons (by decide) t
  unfold withExponent
  dsimp only
  split
  · refine ⟨digits, [], _, _, takeMantissa_whole hne hdigits (hbreaks _) (by simp), hexponent, ?_⟩
    rw [List.append_nil, List.length_nil, Decimal.mk.injEq]
    exact ⟨rfl, by omega⟩
  · have hfirst : digits.take 1 ≠ [] := by simpa using hne
    have hmantissa := takeMantissa_fraction hfirst (fun c hc => hdigits c (List.mem_of_mem_take hc))
      (fun c (hc : c ∈ digits.drop 1) => hdigits c (List.mem_of_mem_drop hc))
      (hbreaks ((if 0 < position then '+' else '-') :: places))
    rw [List.append_assoc, List.cons_append]
    refine ⟨_, _, _, _, hmantissa, hexponent, ?_⟩
    rw [List.take_append_drop, List.length_drop, Decimal.mk.injEq]
    exact ⟨rfl, by omega⟩

end Numeral

end FormulaGrid
