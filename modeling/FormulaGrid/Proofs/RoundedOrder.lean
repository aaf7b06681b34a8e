import FormulaGrid.Proofs.NearestRanks
import Mathlib.Algebra.Order.Field.Power
import Mathlib.Data.Rat.Cast.Order
import Mathlib.Tactic.FieldSimp
import Mathlib.Tactic.Linarith
import Mathlib.Tactic.Positivity

/-!
# Rounding in order

A greater rank is a greater magnitude, and what lies between the halfway points on either side of a magnitude
is rounded to it. So a greater decimal never has a smaller rank, and the decimals of one rank leave no gaps.
-/
namespace FormulaGrid

namespace Binary64

variable {p q p' q' rank steps s : Nat}

theorem unitsPerOne_pos : 0 < unitsPerOne := by
  rw [unitsPerOne_eq]
  generalize 1074 = places
  exact Nat.two_pow_pos places

/-- The nearest integer is at most a half away. -/
theorem halfEven_bounds (hq : 0 < q) :
    2 * p ≤ (2 * halfEven p q + 1) * q ∧ 2 * halfEven p q * q ≤ 2 * p + q := by
  have hdivision : q * (p / q) + p % q = p := Nat.div_add_mod p q
  have hremainder : p % q < q := Nat.mod_lt p hq
  have hproduct (d : Nat) : (2 * d + 1) * q = 2 * (q * d) + q ∧ 2 * d * q = 2 * (q * d) :=
    ⟨by ring, by ring⟩
  unfold halfEven
  dsimp only
  split
  · obtain ⟨hodd, heven⟩ := hproduct (p / q)
    rw [hodd, heven]
    omega
  · obtain ⟨hodd, heven⟩ := hproduct (p / q + 1)
    rw [hodd, heven, Nat.mul_add, Nat.mul_one]
    omega

/-- Halfway between two integers the even one is taken. -/
theorem halfEven_even {n : Nat} (hq : 0 < q) (h : 2 * p = (2 * n + 1) * q) : halfEven p q % 2 = 0 := by
  have hproduct : (2 * n + 1) * q = 2 * (n * q) + q := by ring
  have hquotient : p / q = n := by
    rw [Nat.div_eq_iff hq]
    omega
  have hremainder : p % q = p - n * q := by
    rw [← hquotient, Nat.mul_comm, ← Nat.mod_eq_sub_mul_div]
  have hhalf : 2 * (p % q) = q := by omega
  unfold halfEven
  dsimp only
  rw [hquotient, hhalf]
  split <;> omega

/-- One step more than the last one of a scale is the first one of the next scale. -/
theorem units_steps (hlast : steps ≤ 2 ^ 53) (hfirst : 2 ^ 52 ≤ steps ∨ s = 0) :
    units (s * 2 ^ 52 + steps) = steps * 2 ^ s := by
  have hpow : (2 : Nat) ^ 52 = 4503599627370496 := rfl
  have hnext : (2 : Nat) ^ 53 = 9007199254740992 := rfl
  unfold units scale
  simp only [Nat.pow_eq, hpow, hnext] at hlast hfirst ⊢
  by_cases hsteps : steps = 9007199254740992
  · have hscale : (s * 4503599627370496 + steps) / 4503599627370496 - 1 = s + 1 := by omega
    have hrest : s * 4503599627370496 + steps - (s + 1) * 4503599627370496 = 4503599627370496 := by
      omega
    rw [hscale, hrest, hsteps, Nat.pow_succ]
    ring
  · have hscale : (s * 4503599627370496 + steps) / 4503599627370496 - 1 = s := by omega
    rw [hscale, Nat.add_sub_cancel_left]

theorem units_succ (rank : Nat) : units (rank + 1) = units rank + 2 ^ scale rank := by
  obtain ⟨steps, hrank, hunits, hlast, hfirst⟩ := units_eq rank
  have hnext := units_steps (show steps + 1 ≤ 2 ^ 53 from hlast)
    (show 2 ^ 52 ≤ steps + 1 ∨ scale rank = 0 by omega)
  rw [← Nat.add_assoc, ← hrank] at hnext
  rw [hnext, hunits, Nat.add_mul, Nat.one_mul]

theorem units_strictMono : StrictMono units :=
  strictMono_nat_of_lt_succ fun rank => by
    rw [units_succ]
    exact Nat.lt_add_of_pos_right (Nat.two_pow_pos _)

/-- Twice the halfway point between a magnitude and the next one. -/
def middle (rank : Nat) : Nat := units rank + units (rank + 1)

theorem middle_mono : Monotone middle := fun _ _ h =>
  Nat.add_le_add (units_strictMono.monotone h) (units_strictMono.monotone (Nat.succ_le_succ h))

theorem middle_steps (hlast : steps < 2 ^ 53) (hfirst : 2 ^ 52 ≤ steps ∨ s = 0) :
    middle (s * 2 ^ 52 + steps) = (2 * steps + 1) * 2 ^ s := by
  have hnext : units (s * 2 ^ 52 + steps + 1) = (steps + 1) * 2 ^ s := by
    rw [Nat.add_assoc, units_steps hlast (by omega)]
  rw [middle, units_steps hlast.le hfirst, hnext]
  ring

/-- A rounded quotient is a number of steps of the scale that the quotient falls into. -/
theorem nearestRank_steps (hq : 0 < q) : ∃ s steps, nearestRank p q = s * 2 ^ 52 + steps ∧
    steps = halfEven p (q * 2 ^ s) ∧ steps ≤ 2 ^ 53 ∧ (2 ^ 52 ≤ steps ∨ s = 0) ∧
    2 * p ≤ (2 * steps + 1) * (q * 2 ^ s) ∧ 2 * steps * (q * 2 ^ s) ≤ 2 * p + q * 2 ^ s ∧
    (s ≠ 0 → 2 ^ 52 * (q * 2 ^ s) ≤ p) ∧ p < 2 ^ 53 * (q * 2 ^ s) := by
  generalize hs : (p / q).log2 - 52 = s
  have hunit : 0 < q * 2 ^ s := Nat.mul_pos hq (Nat.two_pow_pos s)
  have hquotient : p / (q * 2 ^ s) = p / q / 2 ^ s := (Nat.div_div_eq_div_mul p q (2 ^ s)).symm
  have hhigh : p / (q * 2 ^ s) < 2 ^ 53 := by
    rw [hquotient, Nat.div_lt_iff_lt_mul (Nat.two_pow_pos s), ← Nat.pow_add]
    exact Nat.lt_log2_self.trans_le (Nat.pow_le_pow_right (by decide) (by omega))
  have hlow : s ≠ 0 → 2 ^ 52 ≤ p / (q * 2 ^ s) := by
    intro hne
    have hlog : (p / q).log2 = 52 + s := by omega
    have hne : p / q ≠ 0 := by
      intro hzero
      rw [hzero, Nat.log2_zero] at hlog
      omega
    rw [hquotient, Nat.le_div_iff_mul_le (Nat.two_pow_pos s), ← Nat.pow_add, ← hlog]
    exact Nat.log2_self_le hne
  have hclose : p / (q * 2 ^ s) ≤ halfEven p (q * 2 ^ s) ∧
      halfEven p (q * 2 ^ s) ≤ p / (q * 2 ^ s) + 1 := by
    unfold halfEven
    dsimp only
    split <;> omega
  obtain ⟨hupper, hlower⟩ := halfEven_bounds (p := p) hunit
  refine ⟨s, halfEven p (q * 2 ^ s), ?_, rfl, by omega, by omega, hupper, hlower, ?_, ?_⟩
  · rw [nearestRank, hs]
    rfl
  · intro hne
    exact (Nat.le_div_iff_mul_le hunit).mp (hlow hne)
  · exact (Nat.div_lt_iff_lt_mul hunit).mp hhigh

/-- A quotient is not beyond the halfway point above its rank, and at this point its rank is even. -/
theorem le_middle (hq : 0 < q) : 2 * p ≤ middle (nearestRank p q) * q ∧
    (2 * p = middle (nearestRank p q) * q → nearestRank p q % 2 = 0) := by
  obtain ⟨s, steps, hrank, hsteps, hlast, hfirst, hupper, -, -, hhigh⟩ := nearestRank_steps (p := p) hq
  by_cases hmore : steps < 2 ^ 53
  · have hmiddle : middle (nearestRank p q) * q = (2 * steps + 1) * (q * 2 ^ s) := by
      rw [hrank, middle_steps hmore hfirst]
      ring
    rw [hmiddle]
    refine ⟨hupper, fun htie => ?_⟩
    have heven := halfEven_even (Nat.mul_pos hq (Nat.two_pow_pos s)) htie
    rw [← hsteps] at heven
    omega
  · have hbelow : 2 * p < middle (nearestRank p q) * q := by
      have hunits : units (nearestRank p q) = 2 ^ 53 * 2 ^ s := by
        rw [hrank, units_steps hlast hfirst, Nat.le_antisymm hlast (not_lt.mp hmore)]
      have hnext : units (nearestRank p q) ≤ units (nearestRank p q + 1) :=
        units_strictMono.monotone (Nat.le_succ _)
      have hscaled : p < units (nearestRank p q) * q := by
        rw [hunits]
        linarith
      rw [middle]
      nlinarith
    exact ⟨hbelow.le, fun htie => absurd htie hbelow.ne⟩

/-- Nor is it beyond the one below its rank. -/
theorem middle_le (hq : 0 < q) (h : nearestRank p q = rank + 1) : middle rank * q ≤ 2 * p ∧
    (2 * p = middle rank * q → nearestRank p q % 2 = 0) := by
  obtain ⟨s, steps, hrank, hsteps, hlast, hfirst, -, hlower, hlow, -⟩ := nearestRank_steps (p := p) hq
  by_cases hmore : 2 ^ 52 < steps ∨ s = 0
  · obtain ⟨before, rfl⟩ : ∃ before, steps = before + 1 := by
      refine ⟨steps - 1, ?_⟩
      rcases hmore with hmore | rfl <;> omega
    have hmiddle : middle rank * q = (2 * before + 1) * (q * 2 ^ s) := by
      obtain rfl : rank = s * 2 ^ 52 + before := by omega
      rw [middle_steps (by omega) (by omega)]
      ring
    rw [hmiddle]
    refine ⟨by linarith, fun htie => ?_⟩
    have heven := halfEven_even (Nat.mul_pos hq (Nat.two_pow_pos s)) htie
    rw [← hsteps] at heven
    omega
  · have habove : middle rank * q < 2 * p := by
      have hunits : units (rank + 1) = 2 ^ 52 * 2 ^ s := by
        rw [← h, hrank, units_steps hlast hfirst, show steps = 2 ^ 52 by omega]
      have hbefore : units rank < units (rank + 1) := units_strictMono (Nat.lt_succ_self _)
      have hscaled : units (rank + 1) * q ≤ p := by
        have hfull := hlow fun hzero => hmore (Or.inr hzero)
        rw [hunits]
        linarith
      rw [middle]
      nlinarith
    exact ⟨habove.le, fun htie => absurd htie habove.ne'⟩

/-- What is above a halfway point has a rank above it. -/
theorem lt_nearestRank (hq : 0 < q) (h : middle rank * q < 2 * p) : rank < nearestRank p q := by
  by_contra hle
  have hgrow := Nat.mul_le_mul_right q (middle_mono (not_lt.mp hle))
  exact absurd ((le_middle hq).1.trans hgrow) (not_le.mpr h)

/-- What is below a halfway point has a rank below it. -/
theorem nearestRank_le (hq : 0 < q) (h : 2 * p < middle rank * q) : nearestRank p q ≤ rank := by
  by_contra hlt
  obtain ⟨before, hbefore⟩ := Nat.exists_eq_succ_of_ne_zero (Nat.ne_zero_of_lt (not_le.mp hlt))
  have hgrow := Nat.mul_le_mul_right q (middle_mono (show rank ≤ before by omega))
  exact absurd (hgrow.trans (middle_le hq hbefore).1) (not_le.mpr h)

theorem nearestRank_congr (hq : 0 < q) (hq' : 0 < q') (h : p * q' = p' * q) :
    nearestRank p q = nearestRank p' q' := by
  rw [← nearestRank_mul (p := p) (q := q) hq', ← nearestRank_mul (p := p') (q := q') hq,
    Nat.mul_comm q' p, Nat.mul_comm q p', h, Nat.mul_comm q' q]

theorem nearestRank_mono (hq : 0 < q) (hq' : 0 < q') (h : p * q' ≤ p' * q) :
    nearestRank p q ≤ nearestRank p' q' := by
  rcases Nat.lt_or_eq_of_le h with hlt | heq
  · by_contra hless
    obtain ⟨before, hbefore⟩ := Nat.exists_eq_succ_of_ne_zero (Nat.ne_zero_of_lt (not_le.mp hless))
    -- Both quotients would be at one halfway point, or on its other sides.
    have hmiddle := Nat.mul_le_mul_right q' (middle_mono (show nearestRank p' q' ≤ before by omega))
    have hscaled : 2 * p' * q ≤ 2 * p * q' := calc
      2 * p' * q ≤ middle before * q' * q := Nat.mul_le_mul_right q ((le_middle hq').1.trans hmiddle)
      _ = middle before * q * q' := by ring
      _ ≤ 2 * p * q' := Nat.mul_le_mul_right q' (middle_le hq hbefore).1
    linarith
  · exact (nearestRank_congr hq hq' heq).le

/-- A whole number has a whole nearest magnitude. -/
theorem unitsPerOne_dvd_units_nearestRank (n : Nat) :
    unitsPerOne ∣ units (nearestRank (n * unitsPerOne) 1) := by
  rw [unitsPerOne_eq]
  generalize 1074 = places
  rw [Nat.pow_eq]
  obtain ⟨s, steps, hrank, -, hlast, hfirst, hupper, hlower, -⟩ :=
    nearestRank_steps (p := n * 2 ^ places) Nat.one_pos
  rw [hrank, units_steps hlast hfirst]
  by_cases hscale : places ≤ s
  · exact Dvd.dvd.mul_left (Nat.pow_dvd_pow 2 hscale) steps
  -- On a finer scale the number itself is a magnitude.
  have hsplit : n * 2 ^ places = n * 2 ^ (places - s) * 2 ^ s := by
    rw [Nat.mul_assoc, ← Nat.pow_add, Nat.sub_add_cancel (by omega)]
  generalize n * 2 ^ (places - s) = exactly at hsplit
  have hunit : 0 < 2 ^ s := Nat.two_pow_pos s
  have hle : steps ≤ exactly := by
    by_contra hlt
    have hmore := Nat.mul_le_mul_right (2 ^ s) (show exactly + 1 ≤ steps by omega)
    linarith
  have hge : exactly ≤ steps := by
    by_contra hlt
    have hmore := Nat.mul_le_mul_right (2 ^ s) (show steps + 1 ≤ exactly by omega)
    linarith
  obtain rfl : steps = exactly := Nat.le_antisymm hle hge
  exact ⟨n, by rw [← hsplit, Nat.mul_comm]⟩

theorem scale_mono {rank' : Nat} (h : rank ≤ rank') : scale rank ≤ scale rank' := by
  unfold scale
  exact Nat.sub_le_sub_right (Nat.div_le_div_right h) 1

/-- A magnitude is less than 10 ^ 16 times the step to either side. -/
theorem two_mul_units_lt (rank : Nat) :
    2 * units (rank + 1) < 10 ^ 16 * (units (rank + 2) - units rank) := by
  obtain ⟨steps, -, hunits, hlast, -⟩ := units_eq rank
  have hnext := units_succ rank
  have hafter : units (rank + 2) = units (rank + 1) + 2 ^ scale (rank + 1) := units_succ (rank + 1)
  have hscale : 2 ^ scale rank ≤ 2 ^ scale (rank + 1) :=
    Nat.pow_le_pow_right (by decide) (scale_mono (Nat.le_succ rank))
  have hunit : 0 < 2 ^ scale rank := Nat.two_pow_pos _
  have hfew : units (rank + 1) ≤ 2 ^ 53 * 2 ^ scale rank := by
    rw [hnext, hunits, ← Nat.succ_mul]
    exact Nat.mul_le_mul_right _ hlast
  generalize 2 ^ scale rank = unit at *
  omega

/-- A magnitude as a number. -/
def size (rank : Nat) : ℚ := units rank / unitsPerOne

theorem cast_unitsPerOne_pos : (0 : ℚ) < unitsPerOne := Nat.cast_pos.mpr unitsPerOne_pos

theorem size_strictMono : StrictMono size := by
  intro rank rank' h
  have hunits : (units rank : ℚ) < units rank' := by exact_mod_cast units_strictMono h
  exact div_lt_div_of_pos_right hunits cast_unitsPerOne_pos

theorem size_pos (h : rank ≠ 0) : 0 < size rank := by
  have hzero : size 0 = 0 := by rw [size, units_zero, Nat.cast_zero, zero_div]
  rw [← hzero]
  exact size_strictMono (Nat.pos_of_ne_zero h)

end Binary64

namespace Decimal
open Binary64

variable {d d' : Decimal} {rank : Nat}

def value (d : Decimal) : ℚ := d.coefficient * 10 ^ d.exponent

/-- A decimal is rounded as a quotient of natural numbers. -/
theorem exists_rank_eq (d : Decimal) : ∃ p q, 0 < q ∧ d.rank = nearestRank p q ∧
    (p / q : ℚ) = d.value * unitsPerOne := by
  obtain ⟨c, e⟩ := d
  have hpow (n : Nat) : ((Nat.pow 10 n : Nat) : ℚ) = 10 ^ n := by simp
  rw [value, Decimal.rank]
  by_cases he : 0 ≤ e
  · refine ⟨c * Nat.pow 10 e.toNat * unitsPerOne, 1, Nat.one_pos, by rw [decimalRank, if_pos he], ?_⟩
    rw [Nat.cast_one, div_one, Nat.cast_mul, Nat.cast_mul, hpow, ← zpow_natCast, Int.toNat_of_nonneg he]
  · refine ⟨c * unitsPerOne, Nat.pow 10 (-e).toNat, Nat.pow_pos (by decide),
      by rw [decimalRank, if_neg he], ?_⟩
    rw [Nat.cast_mul, hpow, ← zpow_natCast, Int.toNat_of_nonneg (by omega), zpow_neg]
    generalize (unitsPerOne : ℚ) = one
    field_simp

theorem rank_mono (h : d.value ≤ d'.value) : d.rank ≤ d'.rank := by
  obtain ⟨p, q, hq, hrank, hvalue⟩ := exists_rank_eq d
  obtain ⟨p', q', hq', hrank', hvalue'⟩ := exists_rank_eq d'
  have hquotients : (p / q : ℚ) ≤ p' / q' := by
    rw [hvalue, hvalue']
    exact mul_le_mul_of_nonneg_right h cast_unitsPerOne_pos.le
  rw [div_le_div_iff₀ (by exact_mod_cast hq) (by exact_mod_cast hq')] at hquotients
  rw [hrank, hrank']
  exact nearestRank_mono hq hq' (by exact_mod_cast hquotients)

theorem rank_congr (h : d.value = d'.value) : d.rank = d'.rank :=
  Nat.le_antisymm (rank_mono h.le) (rank_mono h.ge)

/-- The quotient that a decimal is rounded as is on the same side of each halfway point. -/
theorem exists_quotient (d : Decimal) : ∃ p q, 0 < q ∧ d.rank = nearestRank p q ∧ ∀ rank,
    (2 * d.value < size rank + size (rank + 1) ↔ 2 * p < middle rank * q) ∧
    (size rank + size (rank + 1) < 2 * d.value ↔ middle rank * q < 2 * p) := by
  obtain ⟨p, q, hq, hrank, hvalue⟩ := exists_rank_eq d
  refine ⟨p, q, hq, hrank, fun rank => ?_⟩
  have hone := cast_unitsPerOne_pos
  have hdenominator : (0 : ℚ) < q := by exact_mod_cast hq
  have htwice : 2 * d.value * (unitsPerOne * q) = (2 * p : Nat) := by
    rw [div_eq_iff hdenominator.ne'] at hvalue
    rw [Nat.cast_mul, hvalue, Nat.cast_ofNat]
    ring
  have hmiddle : (size rank + size (rank + 1)) * (unitsPerOne * q) = (middle rank * q : Nat) := by
    unfold size middle
    generalize (unitsPerOne : ℚ) = one at hone
    rw [← add_div, ← mul_assoc, div_mul_cancel₀ _ hone.ne', Nat.cast_mul, Nat.cast_add]
  rw [← mul_lt_mul_iff_of_pos_right (mul_pos hone hdenominator), htwice, hmiddle,
    ← mul_lt_mul_iff_of_pos_right (b := size rank + size (rank + 1)) (mul_pos hone hdenominator), htwice,
    hmiddle]
  exact ⟨Nat.cast_lt, Nat.cast_lt⟩

/-- What is above a halfway point has a rank above it. -/
theorem lt_rank (h : size rank + size (rank + 1) < 2 * d.value) : rank < d.rank := by
  obtain ⟨p, q, hq, hrank, hside⟩ := exists_quotient d
  rw [hrank]
  exact lt_nearestRank hq ((hside rank).2.mp h)

/-- What is below a halfway point has a rank below it. -/
theorem rank_le (h : 2 * d.value < size rank + size (rank + 1)) : d.rank ≤ rank := by
  obtain ⟨p, q, hq, hrank, hside⟩ := exists_quotient d
  rw [hrank]
  exact nearestRank_le hq ((hside rank).1.mp h)

theorem fives_value (u places : Nat) :
    (u * Nat.pow 5 places : Nat) * (10 : ℚ) ^ (-(places : Int)) = u / (Nat.pow 2 places : Nat) := by
  have htens : (10 : ℚ) ^ places = 5 ^ places * 2 ^ places := by rw [← mul_pow]; norm_num
  rw [zpow_neg, zpow_natCast, htens, Nat.pow_eq, Nat.pow_eq]
  push_cast
  field_simp

theorem exact_value (rank : Nat) : (exact rank).value = size rank := by
  unfold exact value size
  rw [unitsPerOne_eq]
  have hplaces : (-1074 : Int) = -((1074 : Nat) : Int) := rfl
  dsimp only
  rw [hplaces]
  generalize 1074 = places
  exact fives_value (units rank) places

theorem rank_le_of_le (h : d.value ≤ size rank) : d.rank ≤ rank :=
  (rank_mono (h.trans_eq (exact_value rank).symm)).trans_eq (exact_rank rank)

theorem le_rank_of_ge (h : size rank ≤ d.value) : rank ≤ d.rank :=
  (exact_rank rank).ge.trans (rank_mono ((exact_value rank).trans_le h))

theorem rank_of_value_eq (h : d.value = size rank) : d.rank = rank :=
  Nat.le_antisymm (rank_le_of_le h.le) (le_rank_of_ge h.ge)

/-- What lies between a decimal of a rank and the magnitude of this rank has the rank, too. -/
theorem rank_eq_of_le (h : d.rank = rank) (hlow : d.value ≤ d'.value) (hhigh : d'.value ≤ size rank) :
    d'.rank = rank :=
  Nat.le_antisymm (rank_le_of_le hhigh) (h.ge.trans (rank_mono hlow))

theorem rank_eq_of_ge (h : d.rank = rank) (hlow : size rank ≤ d'.value) (hhigh : d'.value ≤ d.value) :
    d'.rank = rank :=
  Nat.le_antisymm ((rank_mono hhigh).trans_eq h) (le_rank_of_ge hlow)

end Decimal

end FormulaGrid
