import FormulaGrid.Proofs.RoundedOrder
import Mathlib.Order.Nat
import Mathlib.Data.Nat.Find

/-!
# Shortest digits

On a grid of decimals only the two neighbours of a magnitude can be the nearest ones of its rank, and a
decimal with few digits is never nearer than one of the grid with that many digits. Seventeen digits are
always enough. So the decimal that is found is the only one that is shortest, nearest and even.
-/
namespace FormulaGrid

namespace Decimal
open Binary64

variable {d d' : Decimal} {rank c k : Nat} {e : Int}

theorem ten_pow_pos (e : Int) : (0 : ℚ) < 10 ^ e := zpow_pos (by norm_num) e

theorem ten_pow_add (e e' : Int) : (10 : ℚ) ^ (e + e') = 10 ^ e * 10 ^ e' :=
  zpow_add₀ (by norm_num) e e'

theorem ten_pow_le {e' : Int} (h : e ≤ e') : (10 : ℚ) ^ e ≤ 10 ^ e' :=
  zpow_le_zpow_right₀ (by norm_num) h

/-- How far a decimal is from a magnitude. -/
def miss (d : Decimal) (rank : Nat) : ℚ := |d.value - size rank|

theorem value_mul_pow (c j : Nat) (e : Int) : (mk (c * 10 ^ j) e).value = (mk c (e + j)).value := by
  rw [value, value, ten_pow_add, zpow_natCast]
  push_cast
  ring

theorem value_le_iff {c' : Nat} : (mk c e).value ≤ (mk c' e).value ↔ c ≤ c' := by
  rw [value, value, mul_le_mul_iff_of_pos_right (ten_pow_pos e)]
  exact Nat.cast_le

theorem digits_length_le_iff (hk : 0 < k) : d.digits.length ≤ k ↔ d.coefficient < 10 ^ k :=
  Nat.length_toDigits_le_iff (by decide) hk

theorem digits_length_pos (d : Decimal) : 0 < d.digits.length :=
  List.length_pos_iff.mpr Nat.toDigits_ne_nil

/-- A number with this many digits. -/
theorem toDigits_bounds {n : Nat} (h : n ≠ 0) :
    10 ^ ((Nat.toDigits 10 n).length - 1) ≤ n ∧ n < 10 ^ (Nat.toDigits 10 n).length := by
  have hpos : 0 < (Nat.toDigits 10 n).length := List.length_pos_iff.mpr Nat.toDigits_ne_nil
  refine ⟨?_, (Nat.length_toDigits_le_iff (by decide) hpos).mp le_rfl⟩
  by_cases hone : (Nat.toDigits 10 n).length = 1
  · rw [hone]
    exact Nat.one_le_iff_ne_zero.mpr h
  · by_contra hlt
    rw [Nat.not_le, ← Nat.length_toDigits_le_iff (by decide) (by omega)] at hlt
    omega

/-- The point stands where the power of ten next above the decimal has it. -/
theorem value_bounds (h : d.coefficient ≠ 0) :
    (10 : ℚ) ^ (d.pointPosition - 1) ≤ d.value ∧ d.value < 10 ^ d.pointPosition := by
  obtain ⟨hlow, hhigh⟩ := toDigits_bounds h
  have hpos := d.digits_length_pos
  have hfirst : d.pointPosition - 1 = ((d.digits.length - 1 : Nat) : Int) + d.exponent := by
    rw [pointPosition]
    omega
  have hlast : d.pointPosition = (d.digits.length : Int) + d.exponent := rfl
  rw [hfirst, hlast, ten_pow_add, ten_pow_add, zpow_natCast, zpow_natCast]
  have hstep := ten_pow_pos d.exponent
  constructor
  · exact mul_le_mul_of_nonneg_right (by exact_mod_cast hlow) hstep.le
  · exact mul_lt_mul_of_pos_right (by exact_mod_cast hhigh) hstep

theorem leadingPosition_bounds {p q : Nat} (hp : 0 < p) (hq : 0 < q) :
    (10 : ℚ) ^ (leadingPosition p q - 1) ≤ p / q ∧ (p / q : ℚ) < 10 ^ leadingPosition p q := by
  have hdenominator : (0 : ℚ) < q := by exact_mod_cast hq
  rw [le_div_iff₀ hdenominator, div_lt_iff₀ hdenominator]
  unfold leadingPosition
  split
  · rename_i hle
    obtain ⟨hlow, hhigh⟩ := toDigits_bounds (n := p / q) (Nat.div_pos hle hq).ne'
    have hpos : 0 < (Nat.toDigits 10 (p / q)).length := List.length_pos_iff.mpr Nat.toDigits_ne_nil
    have hfirst : ((Nat.toDigits 10 (p / q)).length : Int) - 1 =
        (((Nat.toDigits 10 (p / q)).length - 1 : Nat) : Int) := by omega
    rw [Nat.le_div_iff_mul_le hq] at hlow
    rw [Nat.div_lt_iff_lt_mul hq] at hhigh
    rw [hfirst, zpow_natCast, zpow_natCast]
    exact ⟨by exact_mod_cast hlow, by exact_mod_cast hhigh⟩
  · have hquotient : 0 < (q - 1) / p := Nat.div_pos (by omega) hp
    obtain ⟨hlow, hhigh⟩ := toDigits_bounds (n := (q - 1) / p) hquotient.ne'
    have hpos : 0 < (Nat.toDigits 10 ((q - 1) / p)).length :=
      List.length_pos_iff.mpr Nat.toDigits_ne_nil
    generalize (Nat.toDigits 10 ((q - 1) / p)).length = length at *
    rw [Nat.le_div_iff_mul_le hp] at hlow
    rw [Nat.div_lt_iff_lt_mul hp] at hhigh
    have hfirst : (1 : Int) - length - 1 = -(length : Int) := by omega
    have hlast : (1 : Int) - length = -((length - 1 : Nat) : Int) := by omega
    rw [hfirst, hlast, zpow_neg, zpow_neg, zpow_natCast, zpow_natCast, inv_mul_le_iff₀ (by positivity),
      lt_inv_mul_iff₀ (by positivity)]
    exact ⟨by exact_mod_cast (show q ≤ 10 ^ length * p by omega),
      by exact_mod_cast (show 10 ^ (length - 1) * p < q by omega)⟩

/-- How many digits of a magnitude stand before the point. -/
def lead (rank : Nat) : Int := leadingPosition (units rank) unitsPerOne

theorem units_pos (h : rank ≠ 0) : 0 < units rank := by
  rw [← units_zero]
  exact units_strictMono (Nat.pos_of_ne_zero h)

theorem lead_bounds (h : rank ≠ 0) :
    (10 : ℚ) ^ (lead rank - 1) ≤ size rank ∧ size rank < 10 ^ lead rank :=
  leadingPosition_bounds (units_pos h) unitsPerOne_pos

theorem rescale_spec (p q : Nat) (hq : 0 < q) (e : Int) :
    0 < (rescale p q e).2 ∧ ((rescale p q e).1 / (rescale p q e).2 : ℚ) * 10 ^ e = p / q := by
  unfold rescale
  split
  · rename_i he
    obtain ⟨n, rfl⟩ : ∃ n : Nat, e = n := ⟨e.toNat, by omega⟩
    refine ⟨Nat.mul_pos hq (Nat.pow_pos (by decide)), ?_⟩
    simp only [Int.toNat_natCast, Nat.pow_eq, Nat.cast_mul, Nat.cast_pow, Nat.cast_ofNat, zpow_natCast]
    field_simp
  · rename_i he
    obtain ⟨n, rfl⟩ : ∃ n : Nat, e = -(n : Int) := ⟨(-e).toNat, by omega⟩
    refine ⟨hq, ?_⟩
    simp only [Int.neg_neg, Int.toNat_natCast, Nat.pow_eq, Nat.cast_mul, Nat.cast_pow, Nat.cast_ofNat,
      zpow_neg, zpow_natCast]
    field_simp

/-- The last decimal of a grid that is not above the magnitude. -/
def below (rank : Nat) (e : Int) : Decimal :=
  ⟨(rescale (units rank) unitsPerOne e).1 / (rescale (units rank) unitsPerOne e).2, e⟩

/-- The first decimal of a grid that is above the magnitude. -/
def above (rank : Nat) (e : Int) : Decimal := ⟨(below rank e).coefficient + 1, e⟩

def nearest (rank : Nat) (e : Int) : Decimal :=
  ⟨halfEven (rescale (units rank) unitsPerOne e).1 (rescale (units rank) unitsPerOne e).2, e⟩

theorem neighbour?_eq (rank : Nat) (e : Int) : neighbour? rank e =
    if (below rank e).rank = rank ∧ (above rank e).rank = rank then some (nearest rank e)
    else if (below rank e).rank = rank then some (below rank e)
    else if (above rank e).rank = rank then some (above rank e)
    else none := rfl

theorem above_value (rank : Nat) (e : Int) :
    (above rank e).value = (below rank e).value + 10 ^ e := by
  rw [above, value, value, Nat.cast_succ]
  exact add_one_mul _ _

/-- Where a magnitude lies between its neighbours, as a part of the step. -/
theorem exists_remainder (rank : Nat) (e : Int) : ∃ part whole : Nat, part < whole ∧
    size rank = (below rank e).value + part / whole * 10 ^ e ∧
    nearest rank e =
      if 2 * part < whole ∨ (2 * part = whole ∧ (below rank e).coefficient % 2 = 0) then below rank e
      else above rank e := by
  obtain ⟨hq, hvalue⟩ := rescale_spec (units rank) unitsPerOne unitsPerOne_pos e
  refine ⟨_, _, Nat.mod_lt (rescale (units rank) unitsPerOne e).1 hq, ?_, ?_⟩
  · have hcast : (0 : ℚ) < (rescale (units rank) unitsPerOne e).2 := by exact_mod_cast hq
    have hsize : size rank = units rank / unitsPerOne := rfl
    rw [hsize, ← hvalue, below, value, ← add_mul]
    congr 1
    rw [div_eq_iff hcast.ne', add_mul, div_mul_cancel₀ _ hcast.ne']
    exact_mod_cast (Nat.div_add_mod' _ _).symm
  · exact apply_ite (mk · e) _ _ _

theorem below_le (rank : Nat) (e : Int) : (below rank e).value ≤ size rank := by
  obtain ⟨part, whole, -, hsize, -⟩ := exists_remainder rank e
  have hstep := ten_pow_pos e
  rw [hsize]
  exact le_add_of_nonneg_right (by positivity)

theorem lt_above (rank : Nat) (e : Int) : size rank < (above rank e).value := by
  obtain ⟨part, whole, hlt, hsize, -⟩ := exists_remainder rank e
  have hpart : (part / whole : ℚ) < 1 := by
    rw [div_lt_one (by exact_mod_cast Nat.zero_lt_of_lt hlt)]
    exact_mod_cast hlt
  rw [hsize, above_value, add_lt_add_iff_left]
  exact mul_lt_of_lt_one_left (ten_pow_pos e) hpart

theorem miss_of_le (h : d.value ≤ size rank) : d.miss rank = size rank - d.value := by
  rw [miss, abs_sub_comm, abs_of_nonneg (sub_nonneg.mpr h)]

theorem miss_of_ge (h : size rank ≤ d.value) : d.miss rank = d.value - size rank :=
  abs_of_nonneg (sub_nonneg.mpr h)

theorem miss_below_add_miss_above (rank : Nat) (e : Int) :
    (below rank e).miss rank + (above rank e).miss rank = 10 ^ e := by
  rw [miss_of_le (below_le rank e), miss_of_ge (lt_above rank e).le, above_value]
  ring

theorem nearest_spec (rank : Nat) (e : Int) :
    (nearest rank e = below rank e ∧ (below rank e).miss rank < (above rank e).miss rank) ∨
    (nearest rank e = above rank e ∧ (above rank e).miss rank < (below rank e).miss rank) ∨
    ((nearest rank e = below rank e ∨ nearest rank e = above rank e) ∧
      (below rank e).miss rank = (above rank e).miss rank ∧ (nearest rank e).coefficient % 2 = 0) := by
  obtain ⟨part, whole, hlt, hsize, hnearest⟩ := exists_remainder rank e
  have hstep := ten_pow_pos e
  have hwhole : (0 : ℚ) < whole := by exact_mod_cast Nat.zero_lt_of_lt hlt
  have hsum := miss_below_add_miss_above rank e
  have hmiss : (below rank e).miss rank = part / whole * 10 ^ e := by
    rw [miss_of_le (below_le rank e), hsize, add_sub_cancel_left]
  have hcompare (n : ℚ) : n / whole * 10 ^ e < 10 ^ e ↔ n < whole := by
    rw [mul_lt_iff_lt_one_left hstep, div_lt_one hwhole]
  have hdouble : (below rank e).miss rank + (below rank e).miss rank =
      (2 * part : ℚ) / whole * 10 ^ e := by
    rw [hmiss]
    ring
  rcases Nat.lt_trichotomy (2 * part) whole with hless | heq | hmore
  · have hbelow : (2 * part : ℚ) / whole * 10 ^ e < 10 ^ e := (hcompare _).mpr (by exact_mod_cast hless)
    rw [if_pos (Or.inl hless)] at hnearest
    exact Or.inl ⟨hnearest, by linarith⟩
  · have hwholly : (2 * part : ℚ) / whole * 10 ^ e = 10 ^ e := by
      rw [← heq, Nat.cast_mul, Nat.cast_ofNat, div_self, one_mul]
      rw [← heq] at hwhole
      exact_mod_cast hwhole.ne'
    refine Or.inr (Or.inr ⟨?_, by linarith, ?_⟩)
    · rw [hnearest]
      split
      · exact Or.inl rfl
      · exact Or.inr rfl
    · rw [hnearest]
      split
      · rename_i heven
        omega
      · have hodd : (above rank e).coefficient = (below rank e).coefficient + 1 := rfl
        omega
  · have habove : (10 : ℚ) ^ e < (2 * part : ℚ) / whole * 10 ^ e := by
      rw [lt_mul_iff_one_lt_left hstep, one_lt_div hwhole]
      exact_mod_cast hmore
    rw [if_neg (by omega)] at hnearest
    exact Or.inr (Or.inl ⟨hnearest, by linarith⟩)

/-- A decimal of its rank that is nearest on its own grid, and even if another one is equally near. -/
structure Nearest (d : Decimal) (rank : Nat) : Prop where
  reads : d.rank = rank
  miss_le : ∀ c, (mk c d.exponent).rank = rank → d.miss rank ≤ (mk c d.exponent).miss rank
  even : ∀ c, (mk c d.exponent).rank = rank → (mk c d.exponent).miss rank = d.miss rank →
    c = d.coefficient ∨ (d.coefficient % 2 = 0 ∧ c % 2 = 1)

theorem below_of_le (h : (mk c e).rank = rank) (hc : c ≤ (below rank e).coefficient) :
    (below rank e).rank = rank ∧ (below rank e).miss rank ≤ (mk c e).miss rank ∧
    ((mk c e).miss rank = (below rank e).miss rank → c = (below rank e).coefficient) := by
  have hle : (mk c e).value ≤ (below rank e).value := value_le_iff.mpr hc
  have hbelow := below_le rank e
  rw [miss_of_le hbelow, miss_of_le (hle.trans hbelow)]
  refine ⟨rank_eq_of_le h hle hbelow, by linarith, fun heq => ?_⟩
  have hge : (below rank e).value ≤ (mk c e).value := by linarith
  exact Nat.le_antisymm hc (value_le_iff.mp hge)

theorem above_of_ge (h : (mk c e).rank = rank) (hc : (above rank e).coefficient ≤ c) :
    (above rank e).rank = rank ∧ (above rank e).miss rank ≤ (mk c e).miss rank ∧
    ((mk c e).miss rank = (above rank e).miss rank → c = (above rank e).coefficient) := by
  have hle : (above rank e).value ≤ (mk c e).value := value_le_iff.mpr hc
  have habove := (lt_above rank e).le
  rw [miss_of_ge habove, miss_of_ge (habove.trans hle)]
  refine ⟨rank_eq_of_ge h habove hle, by linarith, fun heq => ?_⟩
  have hge : (mk c e).value ≤ (above rank e).value := by linarith
  exact Nat.le_antisymm (value_le_iff.mp hge) hc

/-- A neighbour is never farther from the magnitude than the others on its side. -/
theorem exists_neighbour_le (h : (mk c e).rank = rank) : ∃ n, (n = below rank e ∨ n = above rank e) ∧
    n.rank = rank ∧ n.miss rank ≤ (mk c e).miss rank ∧
    ((mk c e).miss rank = n.miss rank → c = n.coefficient) := by
  rcases Nat.lt_or_ge (below rank e).coefficient c with hlt | hle
  · exact ⟨above rank e, Or.inr rfl, above_of_ge h hlt⟩
  · exact ⟨below rank e, Or.inl rfl, below_of_le h hle⟩

/-- The better neighbour is the nearest decimal of the grid. -/
theorem nearest_of_neighbours (hd : d = below rank e ∨ d = above rank e) (hrank : d.rank = rank)
    (hbest : ∀ n, n = below rank e ∨ n = above rank e → n.rank = rank → d.miss rank ≤ n.miss rank ∧
      (n.miss rank = d.miss rank → n = d ∨ d.coefficient % 2 = 0)) : d.Nearest rank := by
  have hexponent : d.exponent = e := by rcases hd with rfl | rfl <;> rfl
  refine ⟨hrank, fun c hc => ?_, fun c hc heq => ?_⟩ <;> rw [hexponent] at hc
  · obtain ⟨n, hn, hread, hle, -⟩ := exists_neighbour_le hc
    rw [hexponent]
    exact (hbest n hn hread).1.trans hle
  · rw [hexponent] at heq
    obtain ⟨n, hn, hread, hle, hsame⟩ := exists_neighbour_le hc
    obtain ⟨hbetter, htie⟩ := hbest n hn hread
    have hmiss : n.miss rank = d.miss rank := le_antisymm (hle.trans heq.le) hbetter
    obtain rfl : c = n.coefficient := hsame (heq.trans hmiss.symm)
    have hconsecutive : (above rank e).coefficient = (below rank e).coefficient + 1 := rfl
    rcases htie hmiss with rfl | heven
    · exact Or.inl rfl
    · rcases hd with rfl | rfl <;> rcases hn with rfl | rfl <;> omega

theorem nearest_below (hrank : (below rank e).rank = rank)
    (h : (above rank e).rank = rank → (below rank e).miss rank < (above rank e).miss rank) :
    (below rank e).Nearest rank := by
  refine nearest_of_neighbours (Or.inl rfl) hrank ?_
  rintro n (rfl | rfl) hread
  · exact ⟨le_rfl, fun _ => Or.inl rfl⟩
  · exact ⟨(h hread).le, fun heq => absurd heq (h hread).ne'⟩

theorem nearest_above (hrank : (above rank e).rank = rank)
    (h : (below rank e).rank = rank → (above rank e).miss rank < (below rank e).miss rank) :
    (above rank e).Nearest rank := by
  refine nearest_of_neighbours (Or.inr rfl) hrank ?_
  rintro n (rfl | rfl) hread
  · exact ⟨(h hread).le, fun heq => absurd heq (h hread).ne'⟩
  · exact ⟨le_rfl, fun _ => Or.inl rfl⟩

theorem neighbour?_eq_none (h : neighbour? rank e = none) (c : Nat) : (mk c e).rank ≠ rank := by
  intro hc
  obtain ⟨n, hn, hread, -⟩ := exists_neighbour_le hc
  rw [neighbour?_eq] at h
  rcases hn with rfl | rfl <;> split_ifs at h

theorem neighbour?_eq_some (h : neighbour? rank e = some d) :
    (d = below rank e ∨ d = above rank e) ∧ d.Nearest rank := by
  have hrank := neighbour?_rank h
  rw [neighbour?_eq] at h
  split_ifs at h with hboth hbelow habove
  · obtain rfl := Option.some.inj h
    rcases nearest_spec rank e with ⟨hd, hmiss⟩ | ⟨hd, hmiss⟩ | ⟨hd, hmiss, heven⟩
    · rw [hd]
      exact ⟨Or.inl rfl, nearest_below hboth.1 fun _ => hmiss⟩
    · rw [hd]
      exact ⟨Or.inr rfl, nearest_above hboth.2 fun _ => hmiss⟩
    · refine ⟨hd, nearest_of_neighbours hd hrank fun n hn _ => ⟨?_, fun _ => Or.inr heven⟩⟩
      rcases hd with hd | hd <;> rcases hn with rfl | rfl <;> rw [hd] <;> linarith
  · obtain rfl := Option.some.inj h
    exact ⟨Or.inl rfl, nearest_below hbelow fun habove => absurd ⟨hbelow, habove⟩ hboth⟩
  · obtain rfl := Option.some.inj h
    exact ⟨Or.inr rfl, nearest_above habove fun hread => absurd hread hbelow⟩

/-- A decimal with few digits is on the grid with that many digits, or farther away than one of them. -/
theorem exists_on_grid (hrank : rank ≠ 0) (h : d.rank = rank) (hk : d.digits.length = k) :
    ∃ c, (mk c (lead rank - k)).rank = rank ∧ ((mk c (lead rank - k)).miss rank < d.miss rank ∨
      ∃ j : Nat, d.exponent = lead rank - k + j ∧ c = d.coefficient * 10 ^ j) := by
  by_cases hfine : lead rank - k ≤ d.exponent
  · obtain ⟨j, hj⟩ : ∃ j : Nat, d.exponent = lead rank - k + j :=
      ⟨(d.exponent - (lead rank - k)).toNat, by omega⟩
    refine ⟨d.coefficient * 10 ^ j, ?_, Or.inr ⟨j, hj, rfl⟩⟩
    have hvalue : (mk (d.coefficient * 10 ^ j) (lead rank - k)).value = d.value := by
      rw [value_mul_pow, ← hj]
    exact (rank_congr hvalue).trans h
  · -- The decimal ends before the first digit of the magnitude.
    have hpos : 0 < k := hk ▸ d.digits_length_pos
    have hfew : d.coefficient < 10 ^ k := (digits_length_le_iff hpos).mp hk.le
    have hplace : lead rank - k + ((k - 1 : Nat) : Int) = lead rank - 1 := by omega
    have hround : (mk (10 ^ (k - 1)) (lead rank - k)).value = 10 ^ (lead rank - 1) := by
      rw [← Nat.one_mul (10 ^ (k - 1)), value_mul_pow, hplace, value, Nat.cast_one, one_mul]
    have hless : d.value < 10 ^ (lead rank - 1) := calc
      d.value < 10 ^ (k : Int) * 10 ^ d.exponent := by
        rw [value, zpow_natCast]
        exact mul_lt_mul_of_pos_right (by exact_mod_cast hfew) (ten_pow_pos _)
      _ = 10 ^ (k + d.exponent) := (ten_pow_add _ _).symm
      _ ≤ 10 ^ (lead rank - 1) := ten_pow_le (by omega)
    have hsize := (lead_bounds hrank).1
    rw [← hround] at hless hsize
    refine ⟨10 ^ (k - 1), rank_eq_of_le h hless.le hsize, Or.inl ?_⟩
    rw [miss_of_le hsize, miss_of_le (hless.le.trans hsize)]
    linarith

/-- If the step of a grid is less than that between the halfway points, a neighbour is between them. -/
theorem neighbour?_isSome (h : 2 * (10 : ℚ) ^ e < size (rank + 2) - size rank) :
    (neighbour? (rank + 1) e).isSome := by
  by_contra hnone
  rw [Option.not_isSome_iff_eq_none] at hnone
  have hbelow := below_le (rank + 1) e
  have habove := lt_above (rank + 1) e
  have hsucc := above_value (rank + 1) e
  have hlow : 2 * (below (rank + 1) e).value ≤ size rank + size (rank + 1) := by
    by_contra hmore
    exact neighbour?_eq_none hnone _ (Nat.le_antisymm (rank_le_of_le hbelow) (lt_rank (not_le.mp hmore)))
  have hhigh : size (rank + 1) + size (rank + 2) ≤ 2 * (above (rank + 1) e).value := by
    by_contra hless
    exact neighbour?_eq_none hnone _
      (Nat.le_antisymm (rank_le (not_le.mp hless)) (le_rank_of_ge habove.le))
  linarith

theorem two_mul_size_lt (rank : Nat) :
    2 * size (rank + 1) < 10 ^ 16 * (size (rank + 2) - size rank) := by
  have hone := cast_unitsPerOne_pos
  have hunits := two_mul_units_lt rank
  have hmono := units_strictMono.monotone (show rank ≤ rank + 2 by omega)
  have hcast : (2 * units (rank + 1) : ℚ) < 10 ^ 16 * (units (rank + 2) - units rank) := by
    rw [← Nat.cast_sub hmono]
    exact_mod_cast hunits
  unfold size
  generalize (unitsPerOne : ℚ) = one at hone ⊢
  rw [← sub_div, mul_div_assoc', mul_div_assoc']
  exact div_lt_div_of_pos_right hcast hone

theorem neighbour?_seventeen (h : rank ≠ 0) : (neighbour? rank (lead rank - 17)).isSome := by
  obtain ⟨before, rfl⟩ := Nat.exists_eq_succ_of_ne_zero h
  generalize hlead : lead (before + 1) - 17 = e
  apply neighbour?_isSome
  have hgap := two_mul_size_lt before
  have hsize := (lead_bounds h).1
  have hplace : lead (before + 1) - 1 = 16 + e := by omega
  have hsixteen : (10 : ℚ) ^ (16 : Int) = 10 ^ 16 := by norm_num
  rw [Nat.succ_eq_add_one, hplace, ten_pow_add, hsixteen] at hsize
  linarith

theorem findSome?_range {α : Type} {f : Nat → Option α} {a : α} {i n : Nat} (hi : i < n)
    (hbefore : ∀ j < i, f j = none) (h : f i = some a) : (List.range n).findSome? f = some a := by
  induction n with
  | zero => exact absurd hi (Nat.not_lt_zero i)
  | succ n ih =>
    rw [List.range_succ, List.findSome?_append]
    rcases Nat.lt_or_eq_of_le (Nat.le_of_lt_succ hi) with hlt | rfl
    · rw [ih hlt, Option.some_or]
    · have hnone : (List.range i).findSome? f = none :=
        List.findSome?_eq_none_iff.mpr fun j hj => hbefore j (List.mem_range.mp hj)
      rw [hnone, Option.none_or, List.findSome?_singleton, h]

theorem exists_neighbour? (hrank : rank ≠ 0) : ∃ (k : Nat) (d : Decimal), 0 < k ∧ k ≤ 17 ∧
    neighbour? rank (lead rank - k) = some d ∧
    (∀ j : Nat, 0 < j → j < k → neighbour? rank (lead rank - j) = none) ∧
    shortest rank = stripZeros d.coefficient d.exponent := by
  have hlast : ((16 : Nat) : Int) + 1 = 17 := by norm_num
  have hseventeen : (neighbour? rank (lead rank - (((16 : Nat) : Int) + 1))).isSome := by
    rw [hlast]
    exact neighbour?_seventeen hrank
  have hsome : ∃ i : Nat, (neighbour? rank (lead rank - ((i : Int) + 1))).isSome := ⟨16, hseventeen⟩
  have hfew : Nat.find hsome ≤ 16 := Nat.find_le hseventeen
  obtain ⟨d, hd⟩ := Option.isSome_iff_exists.mp (Nat.find_spec hsome)
  have hbefore : ∀ j < Nat.find hsome, neighbour? rank (lead rank - ((j : Int) + 1)) = none :=
    fun j hj => Option.not_isSome_iff_eq_none.mp (Nat.find_min hsome hj)
  generalize Nat.find hsome = i at hfew hd hbefore
  refine ⟨i + 1, d, Nat.succ_pos _, by omega, by rwa [Nat.cast_succ], fun j hpos hj => ?_, ?_⟩
  · obtain ⟨j, rfl⟩ := Nat.exists_eq_succ_of_ne_zero hpos.ne'
    rw [Nat.cast_succ]
    exact hbefore j (by omega)
  · have hfind := findSome?_range (f := fun n : Nat => neighbour? rank (lead rank - ((n : Int) + 1)))
      (show i < 17 by omega) hbefore hd
    have hlead : leadingPosition (units rank) unitsPerOne = lead rank := rfl
    unfold shortest
    dsimp only
    rw [hlead, List.findSome?_map, Function.comp_def, hfind, Option.getD_some]

theorem stripZeros_spec (hc : c ≠ 0) (e : Int) : ∃ j : Nat,
    c = (stripZeros c e).coefficient * 10 ^ j ∧ (stripZeros c e).exponent = e + j ∧
    (stripZeros c e).coefficient % 10 ≠ 0 := by
  fun_induction stripZeros c e with
  | case1 c e h ih =>
    obtain ⟨j, hcoefficient, hexponent, hlast⟩ := ih (by omega)
    refine ⟨j + 1, ?_, by rw [hexponent]; omega, hlast⟩
    rw [Nat.pow_succ, ← Nat.mul_assoc, ← hcoefficient]
    omega
  | case2 c e h => exact ⟨0, by simp, by simp, fun hzero => h ⟨hzero, hc⟩⟩

/-- What the search ends with: k digits are the least number, and d is the better neighbour on their grid,
its zeros not yet stripped. -/
structure IsFound (d : Decimal) (rank k : Nat) : Prop where
  few : k ≤ 17
  grid : d.exponent = lead rank - k
  nearest : d.Nearest rank
  least : ∀ d' : Decimal, d'.rank = rank → k ≤ d'.digits.length
  length : (shortest rank).digits.length = k
  zeros : ∃ j : Nat, d.coefficient = (shortest rank).coefficient * 10 ^ j ∧
    (shortest rank).exponent = d.exponent + j
  stripped : (shortest rank).coefficient % 10 ≠ 0

theorem coefficient_ne_zero (hrank : rank ≠ 0) (h : d.rank = rank) : d.coefficient ≠ 0 := by
  intro hzero
  have hvalue : d.value = size 0 := by
    rw [value, hzero, size, units_zero, Nat.cast_zero, zero_mul, zero_div]
  exact hrank (h.symm.trans (rank_of_value_eq hvalue))

theorem exists_isFound (hrank : rank ≠ 0) : ∃ d k, IsFound d rank k := by
  obtain ⟨k, d, hpos, hfew, hd, hbefore, hshortest⟩ := exists_neighbour? hrank
  obtain ⟨hneighbour, hnearest⟩ := neighbour?_eq_some hd
  have hgrid : d.exponent = lead rank - k := by rcases hneighbour with rfl | rfl <;> rfl
  have hcoefficient := coefficient_ne_zero hrank hnearest.reads
  obtain ⟨j, hvalue, hexponent, hlast⟩ := stripZeros_spec hcoefficient d.exponent
  rw [← hshortest] at hvalue hexponent hlast
  have hleast (d' : Decimal) (h : d'.rank = rank) : k ≤ d'.digits.length := by
    by_contra hless
    obtain ⟨c, hc, -⟩ := exists_on_grid hrank h rfl
    exact neighbour?_eq_none (hbefore _ d'.digits_length_pos (by omega)) c hc
  have hbound : d.coefficient ≤ 10 ^ k := by
    have hsmall : (below rank (lead rank - k)).coefficient < 10 ^ k := by
      have hless := (below_le rank (lead rank - k)).trans_lt (lead_bounds hrank).2
      have htop : (10 : ℚ) ^ lead rank = 10 ^ k * 10 ^ (lead rank - k) := by
        rw [← zpow_natCast, ← ten_pow_add, add_sub_cancel]
      have hgrid : (below rank (lead rank - k)).exponent = lead rank - k := rfl
      rw [htop, value, hgrid, mul_lt_mul_iff_of_pos_right (ten_pow_pos _)] at hless
      exact_mod_cast hless
    rcases hneighbour with rfl | rfl
    · exact hsmall.le
    · exact hsmall
  have hlength : (shortest rank).digits.length ≤ k := by
    rw [digits_length_le_iff hpos]
    have hle : (shortest rank).coefficient ≤ (shortest rank).coefficient * 10 ^ j :=
      Nat.le_mul_of_pos_right _ (Nat.pow_pos (by decide))
    refine lt_of_le_of_ne (hle.trans (hvalue ▸ hbound)) fun heq => hlast ?_
    rw [heq]
    exact Nat.mod_eq_zero_of_dvd (dvd_pow_self 10 hpos.ne')
  exact ⟨d, k, hfew, hgrid, hnearest, hleast, Nat.le_antisymm hlength (hleast _ (shortest_rank rank)),
    ⟨j, hvalue, hexponent⟩, hlast⟩

/-- The digits a magnitude is to be displayed with: the fewest that have its rank, without zeros at the
end, of those the nearest, and the even ones of two that are equally near. -/
structure IsShortest (d : Decimal) (rank : Nat) : Prop where
  reads : d.rank = rank
  stripped : d.coefficient % 10 ≠ 0
  least : ∀ d' : Decimal, d'.rank = rank → d.digits.length ≤ d'.digits.length
  nearest : ∀ d' : Decimal, d'.rank = rank → d'.digits.length = d.digits.length →
    d.miss rank ≤ d'.miss rank
  even : ∀ c, (mk c d.exponent).rank = rank → (mk c d.exponent).miss rank = d.miss rank →
    c = d.coefficient ∨ d.coefficient % 2 = 0

/-- A decimal on a finer grid. -/
theorem value_on_grid {j : Nat} (h : d.exponent = e + j) :
    (mk (d.coefficient * 10 ^ j) e).value = d.value := by
  rw [value_mul_pow, ← h]

theorem IsFound.value_eq (found : IsFound d rank k) : d.value = (shortest rank).value := by
  obtain ⟨j, hcoefficient, hexponent⟩ := found.zeros
  have hgrid := value_on_grid hexponent
  rwa [← hcoefficient] at hgrid

theorem miss_congr (h : d.value = d'.value) : d.miss rank = d'.miss rank := by
  rw [miss, miss, h]

theorem eq_zero_of_odd {j : Nat} (h : c * 10 ^ j % 2 = 1) : j = 0 := by
  cases j with
  | zero => rfl
  | succ j =>
    rw [Nat.pow_succ, ← Nat.mul_assoc] at h
    omega

theorem isShortest_shortest (hrank : rank ≠ 0) : (shortest rank).IsShortest rank := by
  obtain ⟨d, k, found⟩ := exists_isFound hrank
  obtain ⟨j, hcoefficient, hexponent⟩ := found.zeros
  have hmiss : (shortest rank).miss rank = d.miss rank := miss_congr found.value_eq.symm
  refine ⟨shortest_rank rank, found.stripped, fun d' h => found.length.trans_le (found.least d' h), ?_, ?_⟩
  · intro d' h hlength
    rw [found.length] at hlength
    obtain ⟨c, hc, hnear⟩ := exists_on_grid hrank h hlength
    have hbest := found.nearest.miss_le c
    rw [found.grid] at hbest
    rw [hmiss]
    refine (hbest hc).trans ?_
    rcases hnear with hless | ⟨i, hi, rfl⟩
    · exact hless.le
    · exact (miss_congr (value_on_grid hi)).le
  · intro c hc heq
    have hsame : (mk (c * 10 ^ j) d.exponent).value = (mk c (shortest rank).exponent).value := by
      rw [value_mul_pow, ← hexponent]
    have htie := found.nearest.even (c * 10 ^ j) ((rank_congr hsame).trans hc)
      ((miss_congr hsame).trans (heq.trans hmiss))
    rw [hcoefficient] at htie
    rcases htie with heq | ⟨heven, hodd⟩
    · exact Or.inl (Nat.eq_of_mul_eq_mul_right (Nat.pow_pos (by decide)) heq)
    · rw [eq_zero_of_odd hodd, Nat.pow_zero, Nat.mul_one] at heven
      exact Or.inr heven

theorem eq_of_mul_pow_eq {c' i j : Nat} (hc : c % 10 ≠ 0) (hc' : c' % 10 ≠ 0)
    (h : c * 10 ^ i = c' * 10 ^ j) : c = c' ∧ i = j := by
  induction i generalizing j with
  | zero =>
    cases j with
    | zero => simpa using h
    | succ j =>
      rw [Nat.pow_succ, ← Nat.mul_assoc] at h
      omega
  | succ i ih =>
    cases j with
    | zero =>
      rw [Nat.pow_succ, ← Nat.mul_assoc] at h
      omega
    | succ j =>
      obtain ⟨rfl, rfl⟩ := ih (j := j) (by
        rw [Nat.pow_succ, Nat.pow_succ, ← Nat.mul_assoc, ← Nat.mul_assoc] at h
        omega)
      exact ⟨rfl, rfl⟩

theorem eq_of_coefficient_eq (h : d.coefficient = d'.coefficient) (h' : d.exponent = d'.exponent) :
    d = d' := by
  cases d
  cases d'
  rw [mk.injEq]
  exact ⟨h, h'⟩

/-- No other digits are the shortest ones. -/
theorem IsShortest.eq (h : d.IsShortest rank) (hrank : rank ≠ 0) : d = shortest rank := by
  obtain ⟨d₀, k, found⟩ := exists_isFound hrank
  obtain ⟨j, hcoefficient, hexponent⟩ := found.zeros
  have hs := isShortest_shortest hrank
  have hlength : d.digits.length = k := by
    rw [← found.length]
    exact Nat.le_antisymm (h.least _ hs.reads) (hs.least _ h.reads)
  have hsame : d.digits.length = (shortest rank).digits.length := hlength.trans found.length.symm
  have hmiss : d.miss rank = d₀.miss rank := calc
    d.miss rank = (shortest rank).miss rank :=
      le_antisymm (h.nearest _ hs.reads hsame.symm) (hs.nearest _ h.reads hsame)
    _ = d₀.miss rank := miss_congr found.value_eq.symm
  obtain ⟨c, hc, hnear⟩ := exists_on_grid hrank h.reads hlength
  rw [← found.grid] at hc hnear
  rcases hnear with hless | ⟨i, hi, rfl⟩
  · exact absurd (found.nearest.miss_le c hc) (not_le.mpr (hless.trans_eq hmiss))
  have hgrid := value_on_grid hi
  rcases found.nearest.even _ hc ((miss_congr hgrid).trans hmiss) with heq | ⟨heven, hodd⟩
  · rw [hcoefficient] at heq
    obtain ⟨hsame, rfl⟩ := eq_of_mul_pow_eq h.stripped found.stripped heq
    exact eq_of_coefficient_eq hsame (hi.trans hexponent.symm)
  · -- Both are on one grid, so the even one of them is not the other one.
    obtain rfl := eq_zero_of_odd hodd
    have hgrids : d.exponent = d₀.exponent := by simpa using hi
    rw [Nat.pow_zero, Nat.mul_one] at hodd
    have htie := h.even d₀.coefficient
    rw [hgrids] at htie
    rcases htie found.nearest.reads hmiss.symm with heq | heven' <;> omega

theorem shortest_length_le (hrank : rank ≠ 0) : (shortest rank).digits.length ≤ 17 := by
  obtain ⟨d, k, found⟩ := exists_isFound hrank
  exact found.length.trans_le found.few

theorem digits_length_le_lead {n : Nat} (hrank : rank ≠ 0) (h : (mk n 0).value = size rank) :
    ((mk n 0).digits.length : Int) ≤ lead rank := by
  obtain ⟨-, hless⟩ := lead_bounds hrank
  have hpos := size_pos hrank
  rw [← h, value, zpow_zero, mul_one] at hless hpos
  have hone : (1 : ℚ) ≤ n := by exact_mod_cast hpos
  generalize lead rank = position at hless ⊢
  have hposition : 0 < position := by
    by_contra hsmall
    have hpower : (10 : ℚ) ^ position ≤ 10 ^ (0 : Int) := ten_pow_le (by omega)
    rw [zpow_zero] at hpower
    linarith
  obtain ⟨places, rfl⟩ := Int.eq_ofNat_of_zero_le hposition.le
  rw [zpow_natCast] at hless
  have hpower : n < 10 ^ places := by exact_mod_cast hless
  exact_mod_cast (digits_length_le_iff (d := mk n 0) (by omega)).mpr hpower

/-- The shortest decimal of a whole number has no places after the point, and it alone. -/
theorem shortest_exponent_nonneg_iff (hrank : rank ≠ 0) :
    0 ≤ (shortest rank).exponent ↔ units rank % unitsPerOne = 0 := by
  constructor
  · intro h
    have hread := shortest_rank rank
    rw [Decimal.rank, decimalRank, if_pos h] at hread
    rw [← hread]
    exact Nat.mod_eq_zero_of_dvd (unitsPerOne_dvd_units_nearestRank _)
  · intro h
    obtain ⟨d, k, found⟩ := exists_isFound hrank
    obtain ⟨j, -, hexponent⟩ := found.zeros
    obtain ⟨n, hn⟩ := Nat.dvd_of_mod_eq_zero h
    have hone := cast_unitsPerOne_pos
    have hsize : (mk n 0).value = size rank := by
      rw [size, hn, Nat.cast_mul, mul_div_cancel_left₀ _ hone.ne', value, zpow_zero, mul_one]
    have hread : (mk n 0).rank = rank := rank_of_value_eq hsize
    have hdigits := digits_length_le_lead hrank hsize
    have hleast := found.least _ hread
    have hgrid := found.grid
    omega

/-- The point of the shortest decimal tells on which side of a power of ten a magnitude is. -/
theorem lt_decimalRank_iff (hrank : rank ≠ 0) (hten : shortest (decimalRank 1 e) = ⟨1, e⟩) :
    rank < decimalRank 1 e ↔ (shortest rank).pointPosition ≤ e := by
  have hread := shortest_rank rank
  have hpower : (mk 1 e).value = 10 ^ e := by rw [value, Nat.cast_one, one_mul]
  have hbounds := value_bounds (coefficient_ne_zero hrank hread)
  constructor
  · intro h
    by_contra hlater
    have hle : (mk 1 e).value ≤ (shortest rank).value := by
      rw [hpower]
      exact (ten_pow_le (by omega)).trans hbounds.1
    have hrank := rank_mono hle
    rw [hread] at hrank
    exact absurd h (not_lt.mpr hrank)
  · intro h
    have hle : (shortest rank).value ≤ (mk 1 e).value := by
      rw [hpower]
      exact hbounds.2.le.trans (ten_pow_le h)
    have hrank := rank_mono hle
    rw [hread] at hrank
    refine lt_of_le_of_ne hrank ?_
    rintro rfl
    have hone : (mk 1 e).digits.length = 1 :=
      congrArg List.length (Nat.toDigits_of_lt_base (n := 1) (by decide))
    have hexponent : (mk 1 e).exponent = e := rfl
    rw [hten, pointPosition, hone, hexponent] at h
    omega

end Decimal

end FormulaGrid
