import FormulaGrid.Numeral
import FormulaGrid.Proofs.RoundedOrder
import Mathlib.Algebra.Order.Ring.Abs
import Mathlib.Order.WithBot

/-!
# Correct rounding

A decimal is read as the double nearest to it, the one of even rank when two are equally near. From half a step
above the largest magnitude on it is read as infinity.
-/
namespace FormulaGrid

namespace Binary64

variable {q x y : ℚ} {rank other : Nat}

theorem abs_sub_le_abs_sub : |q - x| ≤ |q - y| ↔ 0 ≤ (x - y) * (2 * q - (x + y)) := by
  have hdifference : (q - y) ^ 2 - (q - x) ^ 2 = (x - y) * (2 * q - (x + y)) := by ring
  rw [← sq_le_sq, ← sub_nonneg, hdifference]

theorem two_mul_eq_add (hne : x ≠ y) (h : |q - y| = |q - x|) : 2 * q = x + y := by
  have hdifference : (q - y) ^ 2 - (q - x) ^ 2 = (x - y) * (2 * q - (x + y)) := by ring
  rw [(sq_eq_sq_iff_abs_eq_abs _ _).mpr h, sub_self, eq_comm, mul_eq_zero] at hdifference
  exact sub_eq_zero.mp (hdifference.resolve_left (sub_ne_zero.mpr hne))

/-- No finite magnitude is nearer, and if another one is as near, the last bit of this one is zero. -/
structure IsNearest (q : ℚ) (rank : Nat) : Prop where
  le : ∀ other < magnitudeCount, |q - size rank| ≤ |q - size other|
  even : ∀ other < magnitudeCount, other ≠ rank → |q - size other| = |q - size rank| → rank % 2 = 0

/-- Half a step above the largest magnitude. -/
def overflowStart : ℚ := 2 ^ 1024 - 2 ^ 970

/-- What a signed magnitude is rounded to, with ties to even and overflow to infinity. -/
structure IsRounded (negative : Bool) (magnitude : WithTop ℚ) (x : Binary64) : Prop where
  overflow : (overflowStart : WithTop ℚ) ≤ magnitude → x = .infinity negative
  nearest : ∀ q : ℚ, magnitude = q → q < overflowStart →
    ∃ rank, x = .finite negative rank ∧ IsNearest q rank

theorem IsNearest.unique (h : IsNearest q rank) (h' : IsNearest q other) (hrank : rank < magnitudeCount)
    (hother : other < magnitudeCount) : rank = other := by
  by_contra hne
  wlog hlt : rank < other generalizing rank other
  · exact this h' h hother hrank (Ne.symm hne) (Nat.lt_of_le_of_ne (Nat.le_of_not_lt hlt) (Ne.symm hne))
  have htie : |q - size other| = |q - size rank| := le_antisymm (h'.le rank hrank) (h.le other hother)
  have heven := h.even other hother (Ne.symm hne) htie
  have heven' := h'.even rank hrank hne htie.symm
  have hhalf := two_mul_eq_add (size_strictMono hlt).ne htie
  -- Two even ranks are not next to each other, and the one behind the first is nearer than either.
  have hbetween : rank + 1 < other := by omega
  have hfirst : size rank < size (rank + 1) := size_strictMono (Nat.lt_succ_self rank)
  have hsecond : size (rank + 1) < size other := size_strictMono hbetween
  have hnear := h.le (rank + 1) (hbetween.trans hother)
  rw [abs_sub_le_abs_sub] at hnear
  exact absurd hnear (not_le.mpr (mul_neg_of_neg_of_pos (by linarith) (by linarith)))

/-- There is one way to round a number. -/
theorem IsRounded.unique {negative : Bool} {magnitude : WithTop ℚ} {result result' : Binary64}
    (h : IsRounded negative magnitude result) (h' : IsRounded negative magnitude result') :
    result = result' := by
  by_cases hstart : (overflowStart : WithTop ℚ) ≤ magnitude
  · rw [h.overflow hstart, h'.overflow hstart]
  · rw [not_le] at hstart
    obtain ⟨q, rfl⟩ := WithTop.ne_top_iff_exists.mp hstart.ne_top
    have hq : q < overflowStart := WithTop.coe_lt_coe.mp hstart
    obtain ⟨rank, rfl, hrank⟩ := h.nearest q rfl hq
    obtain ⟨other, rfl, hother⟩ := h'.nearest q rfl hq
    have hsame : rank = other := Fin.ext (hrank.unique hother rank.isLt other.isLt)
    rw [hsame]

theorem middle_largest : middle (magnitudeCount - 1) = (2 ^ 54 - 1) * 2 ^ 2045 := by
  have hlargest : magnitudeCount - 1 = 2045 * 2 ^ 52 + (2 ^ 53 - 1) := by decide
  rw [hlargest, middle_steps (by decide) (by decide)]
  generalize 2 ^ 2045 = unit
  norm_num

theorem size_add_size (rank : Nat) : size rank + size (rank + 1) = middle rank / unitsPerOne := by
  rw [size, size, middle, ← add_div, Nat.cast_add]

theorem two_mul_overflowStart :
    2 * overflowStart = size (magnitudeCount - 1) + size (magnitudeCount - 1 + 1) := by
  have hstart : 1024 = 54 + 970 := rfl
  have hunits : 2045 = 970 + 1 + 1074 := rfl
  rw [size_add_size, middle_largest, unitsPerOne_eq, overflowStart, hstart, hunits]
  generalize 970 = places
  generalize 1074 = scale
  rw [Nat.pow_eq, pow_add, pow_add, pow_add]
  push_cast
  field_simp
  norm_num

/-- A number between the halfway points on either side of a magnitude, and only at an even one on them. -/
structure IsBetween (q : ℚ) (rank : Nat) : Prop where
  le : 2 * q ≤ size rank + size (rank + 1)
  even_of_eq : 2 * q = size rank + size (rank + 1) → rank % 2 = 0
  ge : ∀ before, rank = before + 1 → size before + size rank ≤ 2 * q
  even_of_eq_before : ∀ before, rank = before + 1 → 2 * q = size before + size rank → rank % 2 = 0

theorem IsBetween.nearer (h : IsBetween q rank) (hne : other ≠ rank) :
    |q - size rank| ≤ |q - size other| ∧ (|q - size other| = |q - size rank| → rank % 2 = 0) := by
  rw [abs_sub_le_abs_sub]
  rcases Nat.lt_or_gt_of_ne hne with hbefore | hafter
  · obtain ⟨before, rfl⟩ := Nat.exists_eq_succ_of_ne_zero (Nat.ne_zero_of_lt hbefore)
    have hlow := h.ge before rfl
    have horder : size other < size (before + 1) := size_strictMono hbefore
    have hother : size other ≤ size before := size_strictMono.monotone (Nat.le_of_lt_succ hbefore)
    refine ⟨mul_nonneg (by linarith) (by linarith), fun htie => ?_⟩
    have hhalf := two_mul_eq_add horder.ne' htie
    exact h.even_of_eq_before before rfl (by linarith)
  · have hhigh := h.le
    have horder : size rank < size other := size_strictMono hafter
    have hother : size (rank + 1) ≤ size other := size_strictMono.monotone hafter
    refine ⟨mul_nonneg_of_nonpos_of_nonpos (by linarith) (by linarith), fun htie => ?_⟩
    have hhalf := two_mul_eq_add horder.ne htie
    exact h.even_of_eq (by linarith)

theorem IsBetween.isNearest (h : IsBetween q rank) : IsNearest q rank where
  le other _ := by
    by_cases hne : other = rank
    · rw [hne]
    · exact (h.nearer hne).1
  even other _ hne := (h.nearer hne).2

/-- What is below the start of the overflow has a finite magnitude between its halfway points. -/
theorem IsBetween.lt_magnitudeCount_iff (h : IsBetween q rank) :
    rank < magnitudeCount ↔ q < overflowStart := by
  have hstart := two_mul_overflowStart
  constructor
  · intro hrank
    have hlast : rank ≤ magnitudeCount - 1 := Nat.le_sub_one_of_lt hrank
    have hhere : size rank ≤ size (magnitudeCount - 1) := size_strictMono.monotone hlast
    have hnext : size (rank + 1) ≤ size (magnitudeCount - 1 + 1) :=
      size_strictMono.monotone (Nat.succ_le_succ hlast)
    have hle := h.le
    refine lt_of_le_of_ne (by linarith) fun heq => ?_
    -- At the start itself the rank would be the largest one, which is odd.
    have hsame : size (magnitudeCount - 1) ≤ size rank := by linarith
    have hlargest : rank = magnitudeCount - 1 :=
      Nat.le_antisymm hlast (size_strictMono.le_iff_le.mp hsame)
    have heven := h.even_of_eq (by rw [hlargest]; linarith)
    rw [hlargest] at heven
    exact absurd heven (by decide)
  · intro hq
    by_contra hrank
    have hlast : magnitudeCount - 1 < rank := by
      have hpos : 0 < magnitudeCount := by decide
      omega
    obtain ⟨before, rfl⟩ := Nat.exists_eq_succ_of_ne_zero (Nat.ne_zero_of_lt hlast)
    have hge := h.ge before rfl
    have hbefore : size (magnitudeCount - 1) ≤ size before :=
      size_strictMono.monotone (Nat.le_of_lt_succ hlast)
    have hnext : size (magnitudeCount - 1 + 1) ≤ size (before + 1) := size_strictMono.monotone hlast
    linarith

theorem IsBetween.isRounded (h : IsBetween q rank) (negative : Bool) :
    IsRounded negative q (ofRank negative rank) where
  overflow hq := by
    have hnot : ¬rank < magnitudeCount := by
      rw [h.lt_magnitudeCount_iff, not_lt]
      exact WithTop.coe_le_coe.mp hq
    rw [ofRank, dif_neg hnot]
  nearest q' heq hq' := by
    obtain rfl := WithTop.coe_injective heq
    have hrank := h.lt_magnitudeCount_iff.mpr hq'
    exact ⟨⟨rank, hrank⟩, by rw [ofRank, dif_pos hrank], h.isNearest⟩

theorem isRounded_infinity (negative : Bool) : IsRounded negative ⊤ (.infinity negative) where
  overflow _ := rfl
  nearest _ h := absurd h WithTop.top_ne_coe

end Binary64

namespace Decimal
open Binary64

theorem isBetween_rank (d : Decimal) : IsBetween d.value d.rank := by
  obtain ⟨p, q, hq, hrank, hside⟩ := exists_quotient d
  have htie {rank : Nat} (h : 2 * d.value = size rank + size (rank + 1)) : 2 * p = middle rank * q :=
    Nat.le_antisymm (not_lt.mp fun hlt => ((hside rank).2.mpr hlt).ne' h)
      (not_lt.mp fun hlt => ((hside rank).1.mpr hlt).ne h)
  obtain ⟨hhigh, hhighest⟩ := le_middle (p := p) hq
  rw [← hrank] at hhigh hhighest
  constructor
  · exact not_lt.mp fun hlt => hhigh.not_gt ((hside d.rank).2.mp hlt)
  · exact fun h => hhighest (htie h)
  · intro before hbefore
    obtain ⟨hlow, -⟩ := middle_le (p := p) hq (hrank.symm.trans hbefore)
    rw [hbefore]
    exact not_lt.mp fun hlt => hlow.not_gt ((hside before).1.mp hlt)
  · intro before hbefore h
    obtain ⟨-, hlowest⟩ := middle_le (p := p) hq (hrank.symm.trans hbefore)
    rw [hbefore] at h
    rw [hrank]
    exact hlowest (htie h)

end Decimal

namespace Numeral
open Binary64

def isNegative : Numeral → Bool
  | .infinity negative => negative
  | .decimal negative _ _ => negative

/-- The size of the number that a numeral stands for. -/
def magnitude : Numeral → WithTop ℚ
  | .infinity _ => ⊤
  | .decimal _ coefficient exponent => (Decimal.mk coefficient exponent).value

/-- A numeral is read as the double nearest to the number that it stands for. -/
theorem isRounded_value (numeral : Numeral) :
    IsRounded numeral.isNegative numeral.magnitude numeral.value := by
  cases numeral with
  | infinity negative => exact isRounded_infinity negative
  | decimal negative coefficient exponent =>
    rw [value, ofDecimal_eq]
    exact (Decimal.isBetween_rank ⟨coefficient, exponent⟩).isRounded negative

end Numeral

end FormulaGrid
