import FormulaGrid.ShortestDecimal
import Mathlib.Data.Nat.Basic
import Mathlib.Tactic.Ring

/-!
# Nearest ranks

Rounding depends on the value of a quotient alone, and leaves a value that is a magnitude as it is. So
the rank of a decimal does not change with the zeros at the end of its coefficient, the shortest decimal
of a magnitude has its rank, and what is said of decimals far beyond the range agrees with their ranks.
-/
namespace FormulaGrid

namespace Binary64

variable {p q k m c rank : Nat} {e : Int}

theorem halfEven_mul (hk : 0 < k) : halfEven (k * p) (k * q) = halfEven p q := by
  have hquotient : k * p / (k * q) = p / q := Nat.mul_div_mul_left p q hk
  have hremainder : k * p % (k * q) = k * (p % q) := Nat.mul_mod_mul_left k p q
  have hlt : 2 * (k * (p % q)) < k * q ↔ 2 * (p % q) < q := by
    rw [Nat.mul_left_comm, Nat.mul_lt_mul_left hk]
  have heq : 2 * (k * (p % q)) = k * q ↔ 2 * (p % q) = q := by
    rw [Nat.mul_left_comm, Nat.mul_right_inj (Nat.ne_of_gt hk)]
  simp only [halfEven, hquotient, hremainder, hlt, heq]

theorem halfEven_of_mul (hq : 0 < q) : halfEven (m * q) q = m := by
  have hsmall : 2 * (m * q % q) < q := by
    rw [Nat.mul_mod_left]
    exact hq
  rw [halfEven, if_pos (Or.inl hsmall), Nat.mul_div_cancel m hq]

theorem halfEven_of_small (h : 2 * p < q) : halfEven p q = 0 := by
  have hlt : p < q := by omega
  rw [halfEven, Nat.mod_eq_of_lt hlt, if_pos (Or.inl h), Nat.div_eq_of_lt hlt]

theorem nearestRank_mul (hk : 0 < k) : nearestRank (k * p) (k * q) = nearestRank p q := by
  rw [nearestRank, nearestRank, Nat.mul_div_mul_left p q hk, Nat.mul_assoc, halfEven_mul hk]

theorem nearestRank_zero (q : Nat) : nearestRank 0 q = 0 := by
  simp [nearestRank, halfEven, eq_comm]

theorem nearestRank_of_small (h : 2 * p < q) : nearestRank p q = 0 := by
  have hscale : (p / q).log2 - 52 = 0 := by
    rw [Nat.div_eq_of_lt (by omega)]
    decide
  rw [nearestRank, hscale]
  simpa using halfEven_of_small h

theorem magnitudeCount_le_nearestRank (h : 2099 ≤ (p / q).log2) :
    magnitudeCount ≤ nearestRank p q := by
  have hscale : magnitudeCount ≤ ((p / q).log2 - 52) * Nat.pow 2 52 :=
    Nat.mul_le_mul_right _ (by omega)
  exact Nat.le_trans hscale (Nat.le_add_right _ _)

/-- A magnitude has between 2 ^ 52 and 2 ^ 53 steps of its scale, unless the scale is the least one. -/
theorem units_eq (rank : Nat) : ∃ steps, rank = scale rank * 2 ^ 52 + steps ∧
    units rank = steps * 2 ^ scale rank ∧ steps < 2 ^ 53 ∧ (2 ^ 52 ≤ steps ∨ scale rank = 0) := by
  have hpow : Nat.pow 2 52 = 4503599627370496 := rfl
  have hsteps : (2 : Nat) ^ 52 = 4503599627370496 := rfl
  have hbound : (2 : Nat) ^ 53 = 9007199254740992 := rfl
  refine ⟨rank - scale rank * 2 ^ 52, ?_, rfl, ?_, ?_⟩ <;>
    simp only [scale, hpow, hsteps, hbound] <;> omega

/-- A magnitude is rounded to itself. -/
theorem nearestRank_units (rank : Nat) : nearestRank (units rank) 1 = rank := by
  obtain ⟨steps, hrank, hunits, hlt, hnormal⟩ := units_eq rank
  have hscale : (units rank / 1).log2 - 52 = scale rank := by
    rw [Nat.div_one, hunits]
    rcases hnormal with hnormal | hzero
    · have hpos : 0 < 2 ^ scale rank := Nat.two_pow_pos _
      have hne : steps * 2 ^ scale rank ≠ 0 := Nat.mul_ne_zero (by omega) (Nat.ne_of_gt hpos)
      have hlog : (steps * 2 ^ scale rank).log2 = 52 + scale rank := by
        rw [Nat.log2_eq_iff hne, Nat.add_right_comm, Nat.pow_add, Nat.pow_add]
        exact ⟨Nat.mul_le_mul_right _ hnormal, Nat.mul_lt_mul_of_pos_right hlt hpos⟩
      omega
    · have hlog : steps.log2 < 53 := by
        by_cases hsteps : steps = 0
        · rw [hsteps]
          decide
        · exact (Nat.log2_lt hsteps).mpr hlt
      rw [hzero, Nat.pow_zero, Nat.mul_one]
      omega
  have hround : halfEven (units rank) (2 ^ scale rank) = steps := by
    rw [hunits]
    exact halfEven_of_mul (Nat.two_pow_pos _)
  rw [nearestRank, hscale]
  simp only [Nat.one_mul, Nat.pow_eq, hround]
  exact hrank.symm

theorem unitsPerOne_eq : unitsPerOne = Nat.pow 2 1074 := by
  unfold unitsPerOne
  exact Eq.refl _

theorem le_log2_of_le {n scale places : Nat} (hc : c ≠ 0) (h : 62 * n ≤ places) :
    205 * n + scale ≤ (c * Nat.pow 10 places * Nat.pow 2 scale).log2 := by
  have hlarge : 2 ^ (205 * n + scale) ≤ c * 10 ^ places * 2 ^ scale := calc
    2 ^ (205 * n + scale) = (2 ^ 205) ^ n * 2 ^ scale := by rw [Nat.pow_add, Nat.pow_mul]
    _ ≤ (10 ^ 62) ^ n * 2 ^ scale :=
      Nat.mul_le_mul_right _ (Nat.pow_le_pow_left (by decide) n)
    _ = 10 ^ (62 * n) * 2 ^ scale := by rw [Nat.pow_mul]
    _ ≤ 10 ^ places * 2 ^ scale := Nat.mul_le_mul_right _ (Nat.pow_le_pow_right (by decide) h)
    _ ≤ c * 10 ^ places * 2 ^ scale :=
      Nat.mul_le_mul_right _ (Nat.le_mul_of_pos_left _ (Nat.pos_of_ne_zero hc))
  have hpos : 0 < c * 10 ^ places * 2 ^ scale :=
    Nat.lt_of_lt_of_le (Nat.two_pow_pos _) hlarge
  exact (Nat.le_log2 (Nat.ne_of_gt hpos)).mpr hlarge

theorem mul_two_pow_lt {scale places : Nat} (h : c.log2 + scale + 2 ≤ 3 * places) :
    2 * (c * Nat.pow 2 scale) < Nat.pow 10 places := calc
  2 * (c * 2 ^ scale) = c * 2 ^ (scale + 1) := by rw [Nat.pow_succ]; ring
  _ < 2 ^ (c.log2 + 1) * 2 ^ (scale + 1) :=
    Nat.mul_lt_mul_of_pos_right Nat.lt_log2_self (Nat.two_pow_pos _)
  _ = 2 ^ (c.log2 + 1 + (scale + 1)) := (Nat.pow_add 2 _ _).symm
  _ ≤ 2 ^ (3 * places) := Nat.pow_le_pow_right (by decide) (by omega)
  _ = 8 ^ places := Nat.pow_mul 2 3 places
  _ ≤ 10 ^ places := Nat.pow_le_pow_left (by decide) places

/-- From 10 ^ 310 on every decimal is beyond the largest magnitude. -/
theorem magnitudeCount_le_decimalRank (hc : c ≠ 0) (he : 310 ≤ e) :
    magnitudeCount ≤ decimalRank c e := by
  rw [decimalRank, if_pos (by omega), unitsPerOne_eq]
  apply magnitudeCount_le_nearestRank
  rw [Nat.div_one]
  have hbits : 2099 ≤ 205 * 5 + 1074 := by decide
  generalize 1074 = scale at hbits ⊢
  exact hbits.trans (le_log2_of_le hc (by omega))

/-- A decimal below half of the least magnitude has rank zero. -/
theorem decimalRank_of_small (h : (c.log2 : Int) + 1076 ≤ 3 * -e) : decimalRank c e = 0 := by
  have hbits : c.log2 + 1074 + 2 ≤ 3 * (-e).toNat := by omega
  rw [decimalRank, if_neg (by omega), unitsPerOne_eq]
  generalize 1074 = scale at hbits ⊢
  exact nearestRank_of_small (mul_two_pow_lt hbits)

/-- A decimal is read by its rank, also where the rank is not computed. -/
theorem ofDecimal_eq (negative : Bool) (c : Nat) (e : Int) :
    ofDecimal negative c e = ofRank negative (decimalRank c e) := by
  unfold ofDecimal
  split
  · rename_i hc
    have hzero : decimalRank c e = 0 := by
      simp [decimalRank, hc, nearestRank_zero]
    rw [hzero, zero]
  split
  · rename_i hc he
    rw [ofRank, dif_neg (Nat.not_lt.mpr (magnitudeCount_le_decimalRank hc he))]
  split
  · rename_i hsmall
    rw [decimalRank_of_small hsmall, zero]
  · rfl

/-- Zeros at the end of a coefficient count as powers of ten. -/
theorem decimalRank_mul_pow (c k : Nat) (e : Int) :
    decimalRank (c * 10 ^ k) e = decimalRank c (e + k) := by
  unfold decimalRank
  simp only [Nat.pow_eq]
  by_cases he : 0 ≤ e
  · have hexponent : (e + k).toNat = k + e.toNat := by omega
    rw [if_pos he, if_pos (by omega), hexponent, Nat.pow_add, Nat.mul_assoc c]
  rw [if_neg he]
  by_cases hsum : 0 ≤ e + k
  · have hexponent : k = (-e).toNat + (e + k).toNat := by omega
    have hscaled : c * 10 ^ k * unitsPerOne =
        10 ^ (-e).toNat * (c * 10 ^ (e + k).toNat * unitsPerOne) := by
      rw [hexponent, Nat.pow_add, ← hexponent]
      ring
    rw [if_pos hsum, hscaled]
    simpa using nearestRank_mul (q := 1) (Nat.pow_pos (by decide))
  · have hexponent : (-e).toNat = k + (-(e + k)).toNat := by omega
    have hscaled : c * 10 ^ k * unitsPerOne = 10 ^ k * (c * unitsPerOne) := by
      ring
    rw [if_neg hsum, hscaled, hexponent, Nat.pow_add]
    exact nearestRank_mul (Nat.pow_pos (by decide))

end Binary64

namespace Decimal
open Binary64

/-- Twos and fives make tens. -/
theorem nearestRank_fives (rank places : Nat) :
    nearestRank (units rank * Nat.pow 5 places * Nat.pow 2 places) (Nat.pow 10 places) = rank := by
  have hscaled : units rank * 5 ^ places * 2 ^ places = 10 ^ places * units rank := by
    rw [Nat.mul_assoc, ← Nat.mul_pow, Nat.mul_comm]
  have hround := nearestRank_mul (p := units rank) (q := 1) (k := 10 ^ places)
    (Nat.pow_pos (by decide))
  rwa [Nat.mul_one, nearestRank_units, ← hscaled] at hround

theorem exact_rank (rank : Nat) : (exact rank).rank = rank := by
  unfold exact Decimal.rank decimalRank
  rw [if_neg (by simp), unitsPerOne_eq]
  have hplaces : (-(-1074 : Int)).toNat = 1074 := by decide
  rw [hplaces]
  generalize 1074 = places
  exact nearestRank_fives rank places

theorem stripZeros_rank (coefficient : Nat) (exponent : Int) :
    (stripZeros coefficient exponent).rank = decimalRank coefficient exponent := by
  fun_induction stripZeros coefficient exponent with
  | case1 coefficient exponent h ih =>
    have hstep := decimalRank_mul_pow (coefficient / 10) 1 exponent
    rw [Nat.pow_one, Nat.div_mul_cancel (Nat.dvd_of_mod_eq_zero h.1)] at hstep
    rw [ih, hstep]
    rfl
  | case2 coefficient exponent h => rfl

/-- The shortest decimal of a magnitude reads back as this magnitude. -/
theorem shortest_rank (rank : Nat) : (shortest rank).rank = rank := by
  rw [shortest, stripZeros_rank]
  cases h : List.findSome? (neighbour? rank) _ with
  | none => exact exact_rank rank
  | some d =>
    obtain ⟨e, -, he⟩ := List.exists_of_findSome?_eq_some h
    exact neighbour?_rank he

end Decimal

end FormulaGrid
