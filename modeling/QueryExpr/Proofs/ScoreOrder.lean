import Mathlib.Algebra.Order.Field.Basic
import Mathlib.Data.Nat.Prime.Basic
import Mathlib.Tactic.FieldSimp
import Mathlib.Tactic.IntervalCases
import Mathlib.Tactic.Ring
import QueryExpr.Proofs.ScoreRange

/-!
# QueryExpr.Proofs.ScoreOrder

How a combined score compares with the scores it is made of.

* `Score.Admitted.both_atMost` — two scored conditions that both hold score no more than either
  alone.
* `Score.Admitted.either_atMost_iff` — two conditions of which either holds score no less than
  either alone, exactly where the rounded sum keeps enough (`Score.Keeps`).
* `Score.Admitted.keeps_of_sum_le` — it does for two scores of one together at most.
* `Score.Admitted.either_short` — otherwise the last spacing below one can be lost, and no more.
* `Score.run_order` — what holds of every step of a run of combinations.

The greater of two scores is compared in units. Up to one half, rounding the sum loses at most what
is left of the lesser score. Above one half, the spacing below the greater score is the one below
one, and a tie would leave one half and the last number below one, whose sum is rounded up.
-/

namespace QueryExpr

namespace Score

/-! ## Units -/

/-- The spacing of the numbers just below one. -/
theorem granule_below_one : Format.double.granule (2 ^ Format.double.scale - 1) =
    2 ^ (Format.double.scale - Format.double.precision) :=
  Format.granule_two_pow_sub_one _ (by decide)

theorem granule_half : Format.double.granule (2 ^ (Format.double.scale - 1)) =
    2 ^ (Format.double.scale - Format.double.precision) := by
  rw [Format.granule_two_pow, Nat.sub_add_cancel (by decide)]

theorem one_eq_spacings : 2 ^ Format.double.scale =
    2 ^ (Format.double.scale - Format.double.precision) * 2 ^ 53 := by
  rw [← Nat.pow_add]
  congr 1

theorem half_eq_spacings : 2 ^ (Format.double.scale - 1) =
    2 ^ (Format.double.scale - Format.double.precision) * 2 ^ 52 := by
  rw [← Nat.pow_add]
  congr 1

theorem one_eq_halves : 2 ^ Format.double.scale = 2 * 2 ^ (Format.double.scale - 1) := by
  rw [Nat.mul_comm, Nat.two_pow_pred_mul_two (by decide)]

/-- Below one the spacing is no greater. -/
theorem granule_le {u : Nat} (h : u < 2 ^ Format.double.scale) :
    Format.double.granule u ≤ 2 ^ (Format.double.scale - Format.double.precision) := by
  rw [← granule_below_one]
  exact Nat.le_of_dvd (Format.granule_pos _ _) (Format.granule_dvd (by omega))

/-- Below two it is no greater than twice as much. -/
theorem granule_le_two {u : Nat} (h : u < 2 * 2 ^ Format.double.scale) :
    Format.double.granule u ≤ 2 * 2 ^ (Format.double.scale - Format.double.precision) := by
  have hhalf := granule_le (u := u / 2) (by omega)
  have hpos := Format.granule_pos Format.double (u / 2)
  have := Nat.le_of_dvd (by omega) (Format.granule_dvd_two_mul Format.double u)
  omega

/-- A sum of at most two is rounded down by half of the spacing above one at most. -/
theorem sum_deficit {w : Nat} (h : w ≤ 2 * 2 ^ Format.double.scale) :
    w ≤ Format.double.nearest w 1 + 2 ^ (Format.double.scale - Format.double.precision) := by
  rcases Nat.lt_or_eq_of_le h with hlt | heq
  · have hdeficit := Format.nearest_deficit Format.double w Nat.one_pos
    have hspacing := granule_le_two (u := w / 1) (by omega)
    omega
  · rw [heq, nearest_twoUnits]
    exact Nat.le_add_right _ _

/-- A sum of at most one is rounded down by half of the spacing below one at most. -/
theorem sum_deficit_below_one {w : Nat} (h : w ≤ 2 ^ Format.double.scale) :
    2 * w ≤ 2 * Format.double.nearest w 1 +
      2 ^ (Format.double.scale - Format.double.precision) := by
  rcases Nat.lt_or_eq_of_le h with hlt | heq
  · have hdeficit := Format.nearest_deficit Format.double w Nat.one_pos
    have hspacing := granule_le (u := w / 1) (by omega)
    omega
  · have hexact := Format.nearest_mul (by decide) fits_unit Nat.one_pos
    rw [Nat.mul_one] at hexact
    rw [heq, hexact]
    exact Nat.le_add_right _ _

/-- Half of the spacing below one, which is `2 ^ -53`, in amounts and in units. -/
theorem short_iff {one d m r u v : Nat} (hone : one = d * 2 ^ 53) (hd : 0 < d) :
    (m : ℚ) / one - 1 / 2 ^ 54 ≤ r / one - u / one * (v / one) ↔
      2 * (m * one) + 2 * (u * v) ≤ 2 * (r * one) + d * one := by
  have hd' : (0 : ℚ) < d := Nat.cast_pos.mpr hd
  have hone' : (one : ℚ) = d * 2 ^ 53 := by rw [hone]; push_cast; rfl
  rw [← @Nat.cast_le ℚ, ← sub_nonneg, ← sub_nonneg (a := ((2 * (r * one) + d * one : Nat) : ℚ))]
  push_cast
  have hscale : (r : ℚ) / one - u / one * (v / one) - (m / one - 1 / 2 ^ 54) =
      (2 * (r * one) + d * one - (2 * (m * one) + 2 * (u * v))) / (2 * one * one) := by
    rw [hone']
    field_simp
    ring
  rw [hscale, le_div_iff₀ (by rw [hone']; positivity), zero_mul]

theorem spacing_div {one d : Nat} (hone : one = d * 2 ^ 53) (hd : 0 < d) :
    (d : ℚ) / one = 1 / 2 ^ 53 := by
  have hd' : (0 : ℚ) < d := Nat.cast_pos.mpr hd
  rw [hone, Nat.cast_mul, div_mul_eq_div_div, div_self hd'.ne', Nat.cast_pow, Nat.cast_ofNat]

/-- One half is an even multiple of the spacing below it. -/
theorem granule_below_half : 2 * Format.double.granule (2 ^ (Format.double.scale - 1) - 1) ∣
    2 ^ (Format.double.scale - 1) := by
  rw [Format.granule_two_pow_sub_one _ (by decide), ← Nat.pow_succ']
  exact Nat.pow_dvd_pow 2 (by decide)

/-- Half way between two neighbours, the sum of one half and the last number below one is rounded
up. -/
theorem nearest_half_below_one : Format.double.nearest (2 ^ (Format.double.scale - 1) +
    (2 ^ Format.double.scale - 2 ^ (Format.double.scale - Format.double.precision))) 1 =
    3 * 2 ^ (Format.double.scale - 1) := by decide +kernel

/-- If an odd multiple of a power of two is a product with an odd factor `k`, where the other factor
is from two to four times the power, then this other factor is three times the power. -/
theorem eq_of_odd_product {n k j u : Nat} (hk : k % 2 = 1) (hu : u ≤ 2 * 2 ^ n)
    (h : k * (2 * 2 ^ n + u) = (2 * j + 1) * 2 ^ n) : u = 2 ^ n ∧ 3 * k = 2 * j + 1 := by
  have hpos : 0 < 2 ^ n := Nat.two_pow_pos n
  have hcoprime : Nat.Coprime (2 ^ n) k :=
    Nat.Coprime.pow_left n (Nat.coprime_two_left.mpr (Nat.odd_iff.mpr hk))
  have hdvd : 2 ^ n ∣ 2 * 2 ^ n + u := hcoprime.dvd_of_dvd_mul_left (h ▸ Nat.dvd_mul_left _ _)
  obtain ⟨i, rfl⟩ : 2 ^ n ∣ u := (Nat.dvd_add_right (Nat.dvd_mul_left _ _)).mp hdvd
  have hi : i ≤ 2 := Nat.le_of_mul_le_mul_left (by rwa [Nat.mul_comm 2] at hu) hpos
  have hodd : k * (2 + i) = 2 * j + 1 := by
    refine Nat.eq_of_mul_eq_mul_right hpos ?_
    rw [← h]
    ring
  interval_cases i
  · omega
  · exact ⟨Nat.mul_one _, by omega⟩
  · omega

/-- The rounded sum of `u` and `v` units less their product, rounded once more. -/
def eitherUnits (u v : Nat) : Nat :=
  Format.double.nearest
    (Format.double.nearest (u + v) 1 * 2 ^ Format.double.scale - v * u) (2 ^ Format.double.scale)

theorem eitherUnits_comm (u v : Nat) : eitherUnits u v = eitherUnits v u := by
  rw [eitherUnits, eitherUnits, Nat.add_comm u v, Nat.mul_comm v u]

section Either

variable {u v : Nat} (hu : Format.double.Fits u) (hv : Format.double.Fits v)

include hu in
/-- The lesser of two scores is no greater than their combination. -/
theorem le_eitherUnits (huv : u ≤ v) (hone : v ≤ 2 ^ Format.double.scale) :
    u ≤ eitherUnits u v := by
  have hfit : Format.double.Fits (2 * u) := by
    refine hu.two_mul (Nat.lt_of_le_of_lt ?_ fits_twoUnits.1)
    rw [two_units]; omega
  have hr : 2 * u ≤ Format.double.nearest (u + v) 1 :=
    Format.le_nearest (by decide) hfit Nat.one_pos (by omega)
  refine Format.le_nearest (by decide) hu (Nat.two_pow_pos _) ?_
  generalize Format.double.nearest (u + v) 1 = r at *
  generalize 2 ^ Format.double.scale = one at *
  have hprod : v * u ≤ u * one := by rw [Nat.mul_comm v]; exact Nat.mul_le_mul_left u hone
  have := Nat.mul_le_mul_right one hr
  rw [Nat.mul_assoc] at this
  omega

include hu hv in
/-- Up to one half, so is the greater one. -/
theorem le_eitherUnits_of_le_half (huv : u ≤ v) (hhalf : 2 * v ≤ 2 ^ Format.double.scale) :
    v ≤ eitherUnits u v := by
  rcases Nat.lt_or_eq_of_le huv with hlt | rfl
  swap
  · exact le_eitherUnits hu (Nat.le_refl u) (by omega)
  have hpos : 0 < Format.double.granule (v - 1) := Format.granule_pos _ _
  have hspacing : Format.double.granule ((u + v) / 1) ≤ 2 * Format.double.granule (v - 1) := by
    refine Nat.le_of_dvd (by omega) (((Format.granule_dvd (v := 2 * (v - 1) + 1) ?_).trans
      (Format.granule_dvd_two_mul _ _)).trans ?_)
    · omega
    · rw [show (2 * (v - 1) + 1) / 2 = v - 1 by omega]
  have hdeficit := Format.nearest_deficit Format.double (u + v) Nat.one_pos
  obtain ⟨-, -, hvr, -⟩ := sum_bounds hu hv (by omega) (by omega)
  have htie : 2 * v = 2 ^ Format.double.scale → 2 * Format.double.granule (v - 1) ∣ v := by
    intro h
    have hv' : v = 2 ^ (Format.double.scale - 1) :=
      Nat.eq_of_mul_eq_mul_left Nat.two_pos (h.trans one_eq_halves)
    rw [hv']
    exact granule_below_half
  have hprod : 2 * (v * u) ≤ u * 2 ^ Format.double.scale := by
    rw [← Nat.mul_assoc, Nat.mul_comm u]
    exact Nat.mul_le_mul_right u hhalf
  have hle : v * u ≤ Format.double.nearest (u + v) 1 * 2 ^ Format.double.scale :=
    Nat.mul_le_mul hvr (by omega)
  refine Format.le_nearest_of_short (by decide) hv (Nat.two_pow_pos _) ?_ ?_
  all_goals
    generalize Format.double.nearest (u + v) 1 = r at *
    generalize Format.double.granule (v - 1) = below at *
    generalize 2 ^ Format.double.scale = one at *
    have hshort : (2 * v + u) * one ≤ (2 * r + below) * one := Nat.mul_le_mul_right one (by omega)
  · simp only [Nat.add_mul, Nat.mul_assoc] at hshort
    omega
  · intro heq
    -- Nothing is lost but half of what could be: the sum is `v`, and the product half of `u`.
    have hback : (2 * r + below) * one ≤ (2 * v + u) * one := by
      simp only [Nat.add_mul, Nat.mul_assoc]
      omega
    have hsame := Nat.le_of_mul_le_mul_right hback (by omega)
    obtain ⟨rfl, rfl⟩ : r = v ∧ below = u := by omega
    refine htie (Nat.eq_of_mul_eq_mul_right hpos ?_)
    rw [Nat.mul_assoc, Nat.mul_comm one]
    omega

/-- Above one half the spacing below a score is that below one. -/
theorem granule_above_half (hlow : 2 ^ Format.double.scale < 2 * v)
    (hone : v ≤ 2 ^ Format.double.scale) : Format.double.granule (v - 1) =
      2 ^ (Format.double.scale - Format.double.precision) := by
  refine Nat.dvd_antisymm ?_ ?_
  · rw [← granule_below_one]
    exact Format.granule_dvd (by omega)
  · rw [← granule_half]
    refine Format.granule_dvd ?_
    have := one_eq_halves
    generalize 2 ^ Format.double.scale = one at *
    omega

/-- A sum that falls short by exactly half of the spacing below the greater score, where this score
is an odd multiple of the spacing: the lesser score is one half. -/
theorem eq_half_of_odd_tie (huv : u ≤ v) (hone : v ≤ 2 ^ Format.double.scale) {d k j : Nat}
    (hd : 0 < d) (hk : v = d * k) (hodd : k % 2 = 1)
    (h : 2 * (v * 2 ^ Format.double.scale) + 2 * (v * u) =
      2 * (d * j * 2 ^ Format.double.scale) + d * 2 ^ Format.double.scale) :
    u = 2 ^ (Format.double.scale - 1) ∧ 3 * k = 2 * j + 1 := by
  have hhalves := one_eq_halves
  refine eq_of_odd_product hodd (by omega) ?_
  rw [hk] at h
  rw [← hhalves]
  generalize 2 ^ Format.double.scale = one at *
  generalize 2 ^ (Format.double.scale - 1) = half at *
  refine Nat.eq_of_mul_eq_mul_left (show 0 < 2 * d by omega) ?_
  rw [hhalves] at h ⊢
  linarith

include hv in
/-- Above one half, a sum falls short by exactly half of the spacing below the greater score only
where this score is an even multiple of the spacing. -/
theorem even_of_tie (huv : u ≤ v) (hlow : 2 ^ Format.double.scale < 2 * v)
    (hone : v ≤ 2 ^ Format.double.scale)
    (h : 2 * (v * 2 ^ Format.double.scale) + 2 * (v * u) =
      2 * (Format.double.nearest (u + v) 1 * 2 ^ Format.double.scale) +
        2 ^ (Format.double.scale - Format.double.precision) * 2 ^ Format.double.scale) :
    2 * 2 ^ (Format.double.scale - Format.double.precision) ∣ v := by
  have hbelow := granule_above_half hlow hone
  have hpos : 0 < 2 ^ (Format.double.scale - Format.double.precision) := Nat.two_pow_pos _
  obtain ⟨k, hk⟩ := hbelow ▸ (Format.granule_dvd (Nat.sub_le v 1)).trans hv.dvd
  obtain ⟨j, hj⟩ := hbelow ▸ (Format.granule_dvd (by omega)).trans
    (Format.granule_dvd_nearest Format.double (u + v) Nat.one_pos)
  suffices heven : 2 ∣ k by
    rw [hk, Nat.mul_comm 2]
    exact Nat.mul_dvd_mul_left _ heven
  by_contra hodd
  rw [hj] at h
  -- The greater score would be the last number below one, and its sum with one half is rounded up.
  obtain ⟨hu', hkj⟩ := eq_half_of_odd_tie huv hone hpos hk (by omega) h
  have hdeficit := sum_deficit (w := u + v) (by omega)
  obtain rfl : k = 2 ^ 53 - 1 := by
    rw [hj, hu', hk, half_eq_spacings] at hdeficit
    rw [hk, one_eq_spacings] at hone
    generalize 2 ^ (Format.double.scale - Format.double.precision) = d at *
    have hlow : 2 ^ 52 + k ≤ j + 1 := by
      refine Nat.le_of_mul_le_mul_left ?_ hpos
      rw [Nat.mul_add, Nat.mul_add]
      omega
    have hhigh := Nat.le_of_mul_le_mul_left hone hpos
    omega
  have hlast : v = 2 ^ Format.double.scale -
      2 ^ (Format.double.scale - Format.double.precision) := by
    rw [hk, one_eq_spacings, Nat.mul_sub_one]
  have hround := nearest_half_below_one
  rw [← hu', ← hlast, hj, hu', half_eq_spacings, Nat.mul_left_comm] at hround
  have := Nat.eq_of_mul_eq_mul_left hpos hround
  omega

include hu hv in
/-- The sum rounded is no less than what is taken from it. -/
theorem product_le_sum (hu' : u ≤ 2 ^ Format.double.scale) (hv' : v ≤ 2 ^ Format.double.scale) :
    v * u ≤ Format.double.nearest (u + v) 1 * 2 ^ Format.double.scale :=
  Nat.mul_le_mul (sum_bounds hu hv hu' hv').2.2.1 hu'

include hu hv in
/-- The greater of two scores is no greater than their combination exactly where what is rounded
last falls short of it by half of the spacing below one at most. -/
theorem le_eitherUnits_iff (huv : u ≤ v) (hone : v ≤ 2 ^ Format.double.scale) :
    v ≤ eitherUnits u v ↔
      2 * (v * 2 ^ Format.double.scale) + 2 * (v * u) ≤
        2 * (Format.double.nearest (u + v) 1 * 2 ^ Format.double.scale) +
          2 ^ (Format.double.scale - Format.double.precision) * 2 ^ Format.double.scale := by
  have hprod := product_le_sum hu hv (huv.trans hone) hone
  have hden : 0 < 2 ^ Format.double.scale := Nat.two_pow_pos _
  constructor
  · intro hle
    rw [eitherUnits] at hle
    have hexcess := Format.nearest_excess Format.double
      (Format.double.nearest (u + v) 1 * 2 ^ Format.double.scale - v * u) hden
    have hback := Nat.mul_le_mul_right (2 ^ Format.double.scale) hle
    by_cases hlt : Format.double.nearest (u + v) 1 * 2 ^ Format.double.scale - v * u <
        2 ^ Format.double.scale * 2 ^ Format.double.scale
    · have hspacing := Nat.mul_le_mul_right (2 ^ Format.double.scale)
        (granule_le ((Nat.div_lt_iff_lt_mul hden).mpr hlt))
      omega
    · have := Nat.mul_le_mul_right (2 ^ Format.double.scale) hone
      omega
  · intro h
    by_cases hhalf : 2 * v ≤ 2 ^ Format.double.scale
    · exact le_eitherUnits_of_le_half hu hv huv hhalf
    · have hbelow := granule_above_half (by omega) hone
      refine Format.le_nearest_of_short (by decide) hv hden ?_ ?_
      · rw [hbelow]; omega
      · rw [hbelow]
        intro htie
        exact even_of_tie hv huv (by omega) hone (by omega)

include hu hv in
/-- Where the exact sum is one at most, the combination is no less than the greater score. -/
theorem le_eitherUnits_of_sum_le (huv : u ≤ v) (hsum : u + v ≤ 2 ^ Format.double.scale) :
    v ≤ eitherUnits u v := by
  refine (le_eitherUnits_iff hu hv huv (by omega)).mpr ?_
  have hprod : v * u ≤ u * 2 ^ Format.double.scale := by
    rw [Nat.mul_comm v]
    exact Nat.mul_le_mul_left u (by omega)
  have hshort := sum_deficit_below_one hsum
  have := Nat.mul_le_mul_right (2 ^ Format.double.scale) hshort
  simp only [Nat.add_mul, Nat.mul_assoc] at this
  omega

include hu hv in
/-- The combination is less than the greater score by the spacing below one at most. -/
theorem le_eitherUnits_add (huv : u ≤ v) (hone : v ≤ 2 ^ Format.double.scale) :
    v ≤ eitherUnits u v + 2 ^ (Format.double.scale - Format.double.precision) := by
  by_cases hhalf : 2 * v ≤ 2 ^ Format.double.scale
  · exact (le_eitherUnits_of_le_half hu hv huv hhalf).trans (Nat.le_add_right _ _)
  refine Nat.sub_le_iff_le_add.mp ?_
  have hdvd : 2 ^ (Format.double.scale - Format.double.precision) ∣ v :=
    granule_above_half (by omega) hone ▸ (Format.granule_dvd (Nat.sub_le v 1)).trans hv.dvd
  have hpos : 0 < 2 ^ (Format.double.scale - Format.double.precision) := Nat.two_pow_pos _
  have hfit : Format.double.Fits
      (v - 2 ^ (Format.double.scale - Format.double.precision)) := by
    have hspacing := Format.granule_dvd (f := Format.double)
      (u := v - 2 ^ (Format.double.scale - Format.double.precision))
      (v := 2 ^ Format.double.scale - 1) (by omega)
    rw [granule_below_one] at hspacing
    exact ⟨(Nat.sub_le _ _).trans_lt hv.1,
      Nat.mod_eq_zero_of_dvd (hspacing.trans (Nat.dvd_sub hdvd (Nat.dvd_refl _)))⟩
  refine Format.le_nearest (by decide) hfit (Nat.two_pow_pos _) ?_
  have hprod : v * u ≤ u * 2 ^ Format.double.scale := by
    rw [Nat.mul_comm v]
    exact Nat.mul_le_mul_left u hone
  have hsum := sum_deficit (w := u + v) (by omega)
  have := Nat.mul_le_mul_right (2 ^ Format.double.scale) hsum
  rw [Nat.sub_mul]
  simp only [Nat.add_mul] at this
  omega

include hu hv in
theorem both_le_eitherUnits_iff (hu' : u ≤ 2 ^ Format.double.scale)
    (hv' : v ≤ 2 ^ Format.double.scale) :
    u ≤ eitherUnits u v ∧ v ≤ eitherUnits u v ↔
      2 * (max u v * 2 ^ Format.double.scale) + 2 * (u * v) ≤
        2 * (Format.double.nearest (u + v) 1 * 2 ^ Format.double.scale) +
          2 ^ (Format.double.scale - Format.double.precision) * 2 ^ Format.double.scale := by
  rcases Nat.le_total u v with huv | hvu
  · rw [and_iff_right (le_eitherUnits hu huv hv'), le_eitherUnits_iff hu hv huv hv',
      max_eq_right huv, Nat.mul_comm v u]
  · rw [eitherUnits_comm, and_iff_left (le_eitherUnits hv hvu hu'),
      le_eitherUnits_iff hv hu hvu hu', max_eq_left hvu, Nat.add_comm v u]

include hu hv in
theorem both_le_eitherUnits_of_sum_le (hsum : u + v ≤ 2 ^ Format.double.scale) :
    u ≤ eitherUnits u v ∧ v ≤ eitherUnits u v := by
  rcases Nat.le_total u v with huv | hvu
  · exact ⟨le_eitherUnits hu huv (by omega), le_eitherUnits_of_sum_le hu hv huv hsum⟩
  · rw [eitherUnits_comm]
    exact ⟨le_eitherUnits_of_sum_le hv hu hvu (by omega), le_eitherUnits hv hvu (by omega)⟩

include hu hv in
theorem max_le_eitherUnits_add (hu' : u ≤ 2 ^ Format.double.scale)
    (hv' : v ≤ 2 ^ Format.double.scale) :
    max u v ≤ eitherUnits u v + 2 ^ (Format.double.scale - Format.double.precision) := by
  rcases Nat.le_total u v with huv | hvu
  · rw [max_eq_right huv]
    exact le_eitherUnits_add hu hv huv hv'
  · rw [max_eq_left hvu, eitherUnits_comm]
    exact le_eitherUnits_add hv hu hvu hu'

end Either

end Score

/-! ## Amounts -/

/-- The number that a finite number of a format stands for. -/
def Binary.toRat {f : Format} : Binary f → ℚ
  | .finite n u _ => (if n then -(u : ℚ) else u) / 2 ^ f.scale
  | _ => 0

theorem Binary.atMost_iff {f : Format} {x y : Binary f} : x.atMost y = true ↔
    ∃ a b, x.position = some a ∧ y.position = some b ∧ a ≤ b := by
  simp only [atMost, less, equal, compare]
  rcases x.position with _ | a <;> rcases y.position with _ | b
  · simp
  · simp
  · simp
  · simp [Int.compare_eq_lt, Int.le_iff_lt_or_eq]

namespace Score

/-- The number that a score stands for. -/
def amount (s : Score) : ℚ := s.value.toRat

/-- A score that can be made as such. -/
def Accepted (s : Score) : Prop := ofDouble? s.value = some s

instance (s : Score) : Decidable s.Accepted := inferInstanceAs (Decidable (_ = _))

/-- What `s.either t` rounds last, the rounded sum less the product, falls short of the greater of
both by half of the spacing below one at most. -/
def Keeps (s t : Score) : Prop :=
  max s.amount t.amount - 1 / 2 ^ 54 ≤ (s.value.add t.value).toRat - s.amount * t.amount

/-- A score as a count of units. -/
def units (s : Score) : Nat :=
  match s.value with
  | .finite _ u _ => u
  | _ => 0

theorem cast_one : (2 : ℚ) ^ Format.double.scale = ((2 ^ Format.double.scale : Nat) : ℚ) := by
  rw [Nat.cast_pow, Nat.cast_ofNat]

theorem units_zero (n : Bool) : units ⟨.zero n⟩ = 0 := rfl

section Admitted

variable {s t : Score} (hs : s.Admitted) (ht : t.Admitted)

include hs in
theorem Admitted.eq_finite : ∃ n u h, s = ⟨.finite n u h⟩ ∧ u ≤ 2 ^ Format.double.scale ∧
    (n = true → u = 0) := by
  obtain ⟨x⟩ := s
  rcases hs with ⟨u, h, rfl, hle⟩ | hneg
  · exact ⟨false, u, h, rfl, hle, by simp⟩
  · cases hneg
    exact ⟨true, 0, _, rfl, Nat.zero_le _, fun _ => rfl⟩

include hs in
theorem Admitted.units_le : s.units ≤ 2 ^ Format.double.scale := by
  obtain ⟨n, u, h, rfl, hle, -⟩ := hs.eq_finite
  exact hle

include hs in
theorem Admitted.fits : Format.double.Fits s.units := by
  obtain ⟨n, u, h, rfl, -⟩ := hs.eq_finite
  exact h

include hs in
theorem Admitted.position_eq : s.value.position = some (s.units : Int) := by
  obtain ⟨n, u, h, rfl, -, hneg⟩ := hs.eq_finite
  cases n
  · rfl
  · obtain rfl := hneg rfl
    rfl

include hs in
theorem Admitted.amount_eq : s.amount = s.units / 2 ^ Format.double.scale := by
  obtain ⟨n, u, h, rfl, -, hneg⟩ := hs.eq_finite
  cases n
  · rfl
  · simp [amount, Binary.toRat, units, hneg rfl]

include hs ht in
theorem Admitted.atMost_iff : s.value.atMost t.value = true ↔ s.units ≤ t.units := by
  simp [Binary.atMost_iff, hs.position_eq, ht.position_eq]

include hs ht in
theorem Admitted.add_toRat : (s.value.add t.value).toRat =
    Format.double.nearest (s.units + t.units) 1 / 2 ^ Format.double.scale := by
  obtain ⟨n, u, hu, rfl, hu', hn⟩ := hs.eq_finite
  obtain ⟨m, v, hv, rfl, hv', hm⟩ := ht.eq_finite
  change (Binary.ofSum n u m v 1 : Double).toRat = Format.double.nearest (u + v) 1 / _
  by_cases hneg : (n && m) = true
  · obtain ⟨rfl, rfl⟩ : n = true ∧ m = true := by simpa using hneg
    obtain rfl := hn rfl
    obtain rfl := hm rfl
    have hzero := Format.nearest_mul (f := Format.double) (by decide) Format.double.fits_zero
      Nat.one_pos
    rw [Nat.zero_mul] at hzero
    simp [Binary.ofSum, Binary.zero, Binary.toRat, hzero]
  · have hle : u + v ≤ 2 ^ (Format.double.scale + 1) * 1 := by rw [two_units]; omega
    rw [ofSum_eq (k := u + v) (by simpa using hneg) ?_ Nat.one_pos hle]
    · simp [Binary.toRat]
    · split <;> split <;> simp_all

include hs ht in
theorem Admitted.either_units : (s.either t).units = eitherUnits s.units t.units := by
  have hproper : ∀ {s t : Score}, s.Proper → t.Proper →
      (s.either t).units = eitherUnits s.units t.units := by
    rintro ⟨x⟩ ⟨y⟩ ⟨u, hu, rfl, hu'⟩ ⟨v, hv, rfl, hv'⟩
    obtain ⟨h, heq⟩ := either_eq hu hv hu' hv'
    rw [heq]
    rfl
  rcases hs with hs | rfl <;> rcases ht with ht | rfl
  · exact hproper hs ht
  · rw [either_negative hs, hproper hs proper_zero, zero, units_zero, units_zero]
  · rw [negative_either ht, units_zero, ← units_zero false, ← zero, ← hproper proper_zero ht,
      ht.zero_either]
  · decide +kernel

include hs ht in
/-- The score of two scored conditions that both hold is the product, rounded. -/
theorem Admitted.both_units (h₁ : s.isZero = false) (h₂ : t.isZero = false) :
    (s.both t).units =
      Format.double.nearest (s.units * t.units) (2 ^ Format.double.scale) := by
  obtain ⟨n, u, hu, rfl, hu', -⟩ := hs.eq_finite
  obtain ⟨m, v, hv, rfl, hv', -⟩ := ht.eq_finite
  have hden : 0 < 2 ^ Format.double.scale := Nat.two_pow_pos _
  have hprod : u * v ≤ 2 ^ Format.double.scale * 2 ^ Format.double.scale := Nat.mul_le_mul hu' hv'
  have hle : u * v ≤ 2 ^ (Format.double.scale + 1) * 2 ^ Format.double.scale :=
    hprod.trans (Nat.mul_le_mul_right _ (Nat.pow_le_pow_right (by decide) (Nat.le_succ _)))
  have hmul : (Binary.finite n u hu).mul (.finite m v hv) =
      Binary.ofRatio (n ^^ m) (u * v) (2 ^ Format.double.scale) := by
    rw [Binary.mul, Nat.pow_eq]
  rw [Score.both, h₁, h₂, if_neg (by simp), if_neg (by simp), hmul,
    ofRatio_eq hden hle]
  rfl

include hs ht in
/-- Two scored conditions that both hold score no more than either alone. -/
theorem Admitted.both_atMost (h₁ : s.isZero = false) (h₂ : t.isZero = false) :
    (s.both t).value.atMost s.value = true ∧ (s.both t).value.atMost t.value = true := by
  rw [(hs.both ht).atMost_iff hs, (hs.both ht).atMost_iff ht, hs.both_units ht h₁ h₂]
  have hden : 0 < 2 ^ Format.double.scale := Nat.two_pow_pos _
  refine ⟨Format.nearest_le hs.fits hden (Nat.mul_le_mul_left _ ht.units_le),
    Format.nearest_le ht.fits hden ?_⟩
  rw [Nat.mul_comm]
  exact Nat.mul_le_mul_left _ hs.units_le

include hs ht in
theorem Admitted.keeps_iff : s.Keeps t ↔
    2 * (max s.units t.units * 2 ^ Format.double.scale) + 2 * (s.units * t.units) ≤
      2 * (Format.double.nearest (s.units + t.units) 1 * 2 ^ Format.double.scale) +
        2 ^ (Format.double.scale - Format.double.precision) * 2 ^ Format.double.scale := by
  rw [Keeps, hs.amount_eq, ht.amount_eq, hs.add_toRat ht, cast_one,
    max_div_div_right (Nat.cast_nonneg _), ← Nat.cast_max]
  exact short_iff one_eq_spacings (Nat.two_pow_pos _)

include hs ht in
/-- Two conditions of which either holds score no less than either alone exactly where the rounded
sum keeps enough. -/
theorem Admitted.either_atMost_iff :
    (s.value.atMost (s.either t).value = true ∧ t.value.atMost (s.either t).value = true) ↔
      s.Keeps t := by
  rw [hs.atMost_iff (hs.either ht), ht.atMost_iff (hs.either ht), hs.either_units ht,
    both_le_eitherUnits_iff hs.fits ht.fits hs.units_le ht.units_le, hs.keeps_iff ht]

include hs ht in
/-- Two scores of one together at most are kept. -/
theorem Admitted.keeps_of_sum_le (hsum : s.amount + t.amount ≤ 1) : s.Keeps t := by
  have hone : (0 : ℚ) < ((2 ^ Format.double.scale : Nat) : ℚ) :=
    Nat.cast_pos.mpr (Nat.two_pow_pos _)
  rw [hs.amount_eq, ht.amount_eq, cast_one, ← add_div, div_le_one hone, ← Nat.cast_add,
    Nat.cast_le] at hsum
  rw [← hs.either_atMost_iff ht, hs.atMost_iff (hs.either ht), ht.atMost_iff (hs.either ht),
    hs.either_units ht]
  exact both_le_eitherUnits_of_sum_le hs.fits ht.fits hsum

include hs ht in
/-- Two conditions of which either holds score less than either alone by `2 ^ -53` at most. -/
theorem Admitted.either_short : max s.amount t.amount - 1 / 2 ^ 53 ≤ (s.either t).amount := by
  have hone : (0 : ℚ) < ((2 ^ Format.double.scale : Nat) : ℚ) :=
    Nat.cast_pos.mpr (Nat.two_pow_pos _)
  have hle := max_le_eitherUnits_add hs.fits ht.fits hs.units_le ht.units_le
  rw [hs.amount_eq, ht.amount_eq, (hs.either ht).amount_eq, hs.either_units ht, cast_one,
    max_div_div_right hone.le, ← Nat.cast_max]
  rw [← spacing_div one_eq_spacings (Nat.two_pow_pos _), ← sub_div,
    div_le_div_iff_of_pos_right hone, sub_le_iff_le_add, ← Nat.cast_add, Nat.cast_le]
  exact hle

end Admitted
/-! ## Runs -/

theorem unit_eq : unit = .finite false (2 ^ Format.double.scale) fits_unit := by
  simp only [unit, Binary.ofUnits, Nat.pow_eq, dif_pos fits_unit]

theorem unit_position : unit.position = some ((2 ^ Format.double.scale : Nat) : Int) := by
  rw [unit_eq]
  rfl

/-- What can be made as such is a number from zero to one. -/
theorem accepted_iff {s : Score} : s.Accepted ↔ s.Admitted := by
  have hzero : (Binary.zero false : Double).position = some 0 := rfl
  rw [Accepted, ofDouble?, Option.ite_none_right_eq_some, Bool.and_eq_true, Binary.atMost_iff,
    Binary.atMost_iff, hzero, unit_position]
  constructor
  · rintro ⟨⟨⟨_, a, ⟨rfl⟩, ha, hlow⟩, _, _, hb, ⟨rfl⟩, hhigh⟩, -⟩
    obtain rfl := Option.some.inj (ha.symm.trans hb)
    obtain ⟨_ | n | ⟨n, u, h⟩⟩ := s
    · cases ha
    · -- An infinity stands outside of the range.
      have hlimit := fits_unit.1
      generalize 2 ^ Format.double.scale = one at *
      cases n <;> simp only [Binary.position, Option.some.injEq, if_true, Bool.false_eq_true,
        if_false] at ha <;> omega
    · generalize hone : 2 ^ Format.double.scale = one at *
      cases n <;> simp only [Binary.position, Option.some.injEq, if_true, Bool.false_eq_true,
        if_false] at ha
      · exact .inl ⟨u, h, rfl, by omega⟩
      · obtain rfl : u = 0 := by omega
        exact .inr rfl
  · intro hs
    exact ⟨⟨⟨_, _, rfl, hs.position_eq, Int.natCast_nonneg _⟩, _, _, hs.position_eq, rfl,
      Int.ofNat_le.mpr hs.units_le⟩, rfl⟩

/-- The combination of a running score with one more. -/
inductive Step where
  | both (t : Score)
  | either (t : Score)

namespace Step

def operand : Step → Score
  | both t => t
  | either t => t

def apply (s : Score) : Step → Score
  | both t => s.both t
  | either t => s.either t

theorem apply_admitted {s : Score} (hs : s.Admitted) :
    ∀ st : Step, st.operand.Admitted → (st.apply s).Admitted
  | both _, ht => hs.both ht
  | either _, ht => hs.either ht

end Step

/-- The running score after some steps. -/
def run (s : Score) (steps : List Step) : Score := steps.foldl Step.apply s

theorem run_concat (s : Score) (steps : List Step) (st : Step) :
    s.run (steps ++ [st]) = st.apply (s.run steps) := by
  rw [run, List.foldl_append]
  rfl

theorem run_admitted {s : Score} (hs : s.Admitted) {steps : List Step}
    (hsteps : ∀ st ∈ steps, st.operand.Admitted) : (s.run steps).Admitted := by
  induction steps generalizing s with
  | nil => exact hs
  | cons st steps ih =>
    exact ih (st.apply_admitted hs (hsteps st List.mem_cons_self))
      fun st' h => hsteps st' (List.mem_cons_of_mem _ h)

/-- Every running score is one that can be made as such. A step to both of two scored conditions
does not raise the score above either of them. A step to either of two conditions does not lower it
below either of them exactly where the rounded sum keeps enough. -/
theorem run_order {s : Score} {steps : List Step} (hs : s.Accepted)
    (hsteps : ∀ st ∈ steps, st.operand.Accepted) :
    (∀ before, before <+: steps → (s.run before).Accepted) ∧
    (∀ before t, before ++ [.both t] <+: steps →
      (s.run before).isZero = false → t.isZero = false →
        (s.run (before ++ [.both t])).value.atMost (s.run before).value = true ∧
        (s.run (before ++ [.both t])).value.atMost t.value = true) ∧
    (∀ before t, before ++ [.either t] <+: steps →
      ((s.run before).value.atMost (s.run (before ++ [.either t])).value = true ∧
        t.value.atMost (s.run (before ++ [.either t])).value = true ↔
          (s.run before).Keeps t)) := by
  have hrun : ∀ before, before <+: steps → (s.run before).Admitted := fun before h =>
    run_admitted (accepted_iff.mp hs) fun st hst => accepted_iff.mp (hsteps st (h.subset hst))
  have hpair : ∀ before st, before ++ [st] <+: steps →
      (s.run before).Admitted ∧ st.operand.Admitted := fun before st h =>
    ⟨hrun before ((List.prefix_append _ _).trans h),
      accepted_iff.mp (hsteps st (h.subset (List.mem_append_right _ List.mem_cons_self)))⟩
  refine ⟨fun before h => accepted_iff.mpr (hrun before h), ?both, ?either⟩
  case both =>
    intro before t h h₁ h₂
    obtain ⟨hleft, hright⟩ := hpair before _ h
    rw [run_concat]
    exact hleft.both_atMost hright h₁ h₂
  case either =>
    intro before t h
    obtain ⟨hleft, hright⟩ := hpair before _ h
    rw [run_concat]
    exact hleft.either_atMost_iff hright

theorem half_accepted : half.Accepted := accepted_iff.mpr (.inl half_proper)

theorem half_amount : half.amount = 1 / 2 := by
  have hunits : half.units = 2 ^ (Format.double.scale - 1) := rfl
  have hpos : ((2 ^ (Format.double.scale - 1) : Nat) : ℚ) ≠ 0 :=
    Nat.cast_ne_zero.mpr (Nat.two_pow_pos _).ne'
  rw [Admitted.amount_eq (.inl half_proper), cast_one, one_eq_halves, hunits, Nat.cast_mul,
    div_mul_cancel_right₀ hpos, Nat.cast_ofNat, inv_eq_one_div]

theorem run_order_halves :
    (half.Accepted ∧ ∀ st ∈ [Step.either half, .both half], st.operand.Accepted) ∧
      (half.run [.either half, .both half]).Accepted ∧
      (half.run [.either half, .both half]).value.atMost (half.run [.either half]).value = true ∧
      half.value.atMost (half.run [.either half]).value = true := by
  have hsteps : ∀ st ∈ [Step.either half, .both half], st.operand.Accepted := by
    simp [Step.operand, half_accepted]
  obtain ⟨haccepted, hboth, heither⟩ := run_order half_accepted hsteps
  have hkeeps : half.Keeps half :=
    Admitted.keeps_of_sum_le (.inl half_proper) (.inl half_proper) (by rw [half_amount]; norm_num)
  exact ⟨⟨half_accepted, hsteps⟩, haccepted _ List.prefix_rfl,
    (hboth [.either half] half List.prefix_rfl (by decide +kernel) (by decide +kernel)).1,
    ((heither [] half ⟨[.both half], rfl⟩).mpr hkeeps).1⟩

/-- One or `2 ^ -53`: the sum is rounded to one, and the product taken from it. -/
theorem either_lowers :
    let s : Score := ⟨.ofBits .double 0x3ff0000000000000⟩
    let t : Score := ⟨.ofBits .double 0x3ca0000000000000⟩
    s.Accepted ∧ t.Accepted ∧ s.value.atMost (s.run [.either t]).value = false ∧
      (s.run [.either t]).value.toBits = 0x3fefffffffffffff := by
  decide +kernel

end Score

end QueryExpr
