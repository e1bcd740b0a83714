import QueryExpr.Item
import QueryExpr.Proofs.Rounding

/-!
# QueryExpr.Proofs.ScoreRange

Scores between zero and one, and what becomes of them where conditions are combined.

* `Score.Proper`         — a number from zero to one; zero is the positive one.
* `Score.Proper.both`, `Score.Proper.either` — combination does not leave this range.
* `Score.Proper.zero_either` — an unscored condition adds nothing.
* `Score.Proper.either_isZero` — a scored condition is not lost.
-/

namespace QueryExpr

namespace Score

/-- A score from zero to one; zero has the positive sign. -/
def Proper (s : Score) : Prop :=
  ∃ u h, s.value = .finite false u h ∧ u ≤ 2 ^ Format.double.scale

/-! ## Units -/

theorem fits_unit : Format.double.Fits (2 ^ Format.double.scale) :=
  Format.fits_two_pow (by decide) (by decide)

theorem fits_twoUnits : Format.double.Fits (2 ^ (Format.double.scale + 1)) :=
  Format.fits_two_pow (by decide) (by decide)

theorem two_units : 2 ^ (Format.double.scale + 1) = 2 * 2 ^ Format.double.scale := by
  -- For any exponent, so that no power is evaluated.
  generalize Format.double.scale = s
  exact Nat.pow_succ'

theorem nearest_twoUnits : Format.double.nearest (2 * 2 ^ Format.double.scale) 1 =
    2 * 2 ^ Format.double.scale := by
  have hfit := fits_twoUnits
  rw [two_units] at hfit
  have h := Format.nearest_mul (by decide) hfit Nat.one_pos
  rwa [Nat.mul_one] at h

/-- What is rounded to two units at most is a number of the format. -/
theorem nearest_fits {num den : Nat} (hden : 0 < den)
    (h : num ≤ 2 ^ (Format.double.scale + 1) * den) :
    Format.double.Fits (Format.double.nearest num den) :=
  ⟨(Format.nearest_le fits_twoUnits hden h).trans_lt fits_twoUnits.1,
    Format.nearest_aligned (by decide) hden⟩

theorem ofRatio_eq {num den : Nat} (hden : 0 < den)
    (h : num ≤ 2 ^ (Format.double.scale + 1) * den) (n : Bool) :
    Binary.ofRatio n num den =
      .finite n (Format.double.nearest num den) (nearest_fits hden h) := by
  rw [Binary.ofRatio, Binary.ofUnits, dif_pos (nearest_fits hden h)]

/-- A sum that is not negative, rounded; zero is the positive one unless both parts are negative. -/
theorem ofSum_eq {n₁ n₂ : Bool} {a b k den : Nat} (hn : (n₁ && n₂) = false)
    (hsum : (if n₁ then -(a : Int) else a) + (if n₂ then -(b : Int) else b) = k) (hden : 0 < den)
    (h : k ≤ 2 ^ (Format.double.scale + 1) * den) :
    Binary.ofSum n₁ a n₂ b den =
      .finite false (Format.double.nearest k den) (nearest_fits hden h) := by
  simp only [Binary.ofSum, hsum, hn, Int.natAbs_natCast]
  split
  · rename_i h0
    obtain rfl : k = 0 := by omega
    have hz : Format.double.nearest 0 den = 0 := by
      simpa using Format.nearest_mul (by decide) Format.double.fits_zero hden
    simp only [hz]
    rfl
  · rw [decide_eq_false (by omega), ofRatio_eq hden h]

/-! ## Combination -/

theorem proper_zero : zero.Proper := ⟨0, Format.double.fits_zero, rfl, Nat.zero_le _⟩

theorem Proper.eq_zero {s : Score} (hs : s.Proper) (h : s.isZero = true) : s = zero := by
  obtain ⟨x⟩ := s
  obtain ⟨u, hu, rfl, -⟩ := hs
  obtain rfl : u = 0 := by simpa [isZero, Binary.isZero] using h
  rfl

theorem Proper.both_zero {s : Score} (hs : s.Proper) : s.both zero = s := by
  unfold both
  split
  · rename_i h; rw [hs.eq_zero h]
  · rfl

/-- Two scored conditions that both hold have a score in the range. -/
theorem Proper.both {s t : Score} (hs : s.Proper) (ht : t.Proper) : (s.both t).Proper := by
  unfold Score.both
  split
  · exact ht
  split
  · exact hs
  obtain ⟨x⟩ := s
  obtain ⟨y⟩ := t
  obtain ⟨u, hu, rfl, hu'⟩ := hs
  obtain ⟨v, hv, rfl, hv'⟩ := ht
  have hden : 0 < 2 ^ Format.double.scale := Nat.two_pow_pos _
  have hprod : u * v ≤ 2 ^ Format.double.scale * 2 ^ Format.double.scale := Nat.mul_le_mul hu' hv'
  have hle : u * v ≤ 2 ^ (Format.double.scale + 1) * 2 ^ Format.double.scale :=
    hprod.trans (Nat.mul_le_mul_right _ (Nat.pow_le_pow_right (by decide) (Nat.le_succ _)))
  have hmul : (Binary.finite false u hu).mul (.finite false v hv) =
      Binary.ofRatio false (u * v) (2 ^ Format.double.scale) := by
    rw [Binary.mul, Nat.pow_eq, Bool.xor_self]
  refine ⟨_, nearest_fits hden hle, ?_, Format.nearest_le fits_unit hden hprod⟩
  rw [hmul, ofRatio_eq hden hle]

/-- The rounded sum of two scores lies between either of them and two units. -/
theorem sum_bounds {u v : Nat} (hu : Format.double.Fits u) (hv : Format.double.Fits v)
    (hu' : u ≤ 2 ^ Format.double.scale) (hv' : v ≤ 2 ^ Format.double.scale) :
    u + v ≤ 2 ^ (Format.double.scale + 1) ∧
      u ≤ Format.double.nearest (u + v) 1 ∧ v ≤ Format.double.nearest (u + v) 1 ∧
      Format.double.nearest (u + v) 1 ≤ 2 ^ (Format.double.scale + 1) := by
  have hsum : u + v ≤ 2 ^ (Format.double.scale + 1) := by rw [two_units]; omega
  exact ⟨hsum, Format.le_nearest (by decide) hu Nat.one_pos (by omega),
    Format.le_nearest (by decide) hv Nat.one_pos (by omega),
    Format.nearest_le fits_twoUnits Nat.one_pos (by omega)⟩

/-- Of two conditions of which either holds, the score is the rounded sum less the product, rounded
once more. -/
theorem either_eq {u v : Nat} (hu : Format.double.Fits u) (hv : Format.double.Fits v)
    (hu' : u ≤ 2 ^ Format.double.scale) (hv' : v ≤ 2 ^ Format.double.scale) :
    ∃ h, Score.either ⟨.finite false u hu⟩ ⟨.finite false v hv⟩ =
      ⟨.finite false (Format.double.nearest
        (Format.double.nearest (u + v) 1 * 2 ^ Format.double.scale - v * u)
        (2 ^ Format.double.scale)) h⟩ := by
  obtain ⟨hsum, -, hvr, hr⟩ := sum_bounds hu hv hu' hv'
  have hden : 0 < 2 ^ Format.double.scale := Nat.two_pow_pos _
  have hadd : (Binary.finite false u hu).add (.finite false v hv) =
      .finite false (Format.double.nearest (u + v) 1) (nearest_fits Nat.one_pos (by omega)) := by
    rw [Binary.add, ofSum_eq (k := u + v) rfl (by simp) Nat.one_pos (by omega)]
  have hle : v * u ≤ Format.double.nearest (u + v) 1 * 2 ^ Format.double.scale :=
    Nat.mul_le_mul hvr hu'
  have hdiff : Format.double.nearest (u + v) 1 * 2 ^ Format.double.scale - v * u ≤
      2 ^ (Format.double.scale + 1) * 2 ^ Format.double.scale :=
    (Nat.sub_le _ _).trans (Nat.mul_le_mul_right _ hr)
  refine ⟨nearest_fits hden hdiff, ?_⟩
  rw [either, hadd, Binary.neg, Binary.mulAdd, Nat.pow_eq,
    ofSum_eq (k := Format.double.nearest (u + v) 1 * 2 ^ Format.double.scale - v * u) rfl ?_ hden
      hdiff]
  simp only [Bool.not_false, Bool.xor_true, if_true, Bool.false_eq_true, if_false,
    Int.ofNat_sub hle]
  omega

/-- The rounded sum is too large by half of the spacing above one unit at most, or is itself at
most one unit, or is exactly two. -/
theorem sum_excess {u v : Nat} (hu : u ≤ 2 ^ Format.double.scale)
    (hv : v ≤ 2 ^ Format.double.scale) :
    Format.double.nearest (u + v) 1 ≤ max (2 ^ Format.double.scale)
      (u + v + 2 ^ (Format.double.scale - Format.double.precision)) := by
  by_cases hone : u + v ≤ 2 ^ Format.double.scale
  · exact le_max_of_le_left (Format.nearest_le fits_unit Nat.one_pos (by omega))
  refine le_max_of_le_right ?_
  by_cases htwo : u + v = 2 ^ (Format.double.scale + 1)
  · have hmul := Format.nearest_mul (by decide) fits_twoUnits Nat.one_pos
    rw [Nat.mul_one, ← htwo] at hmul
    rw [hmul]
    exact Nat.le_add_right _ _
  · have hlog : (u + v).log2 = Format.double.scale := by
      have hle : u + v ≤ 2 ^ (Format.double.scale + 1) := by
        rw [two_units, Nat.two_mul]; exact Nat.add_le_add hu hv
      exact (Nat.log2_eq_iff (by omega)).mpr ⟨by omega, Nat.lt_of_le_of_ne hle htwo⟩
    have hg : Format.double.granule ((u + v) / 1) =
        2 * 2 ^ (Format.double.scale - Format.double.precision) := by
      rw [Nat.div_one, Format.granule_eq, hlog, ← Nat.pow_succ']
      congr 1
    have := Format.nearest_excess Format.double (u + v) Nat.one_pos
    omega

/-- Two scored conditions of which either holds have a score in the range. -/
theorem Proper.either {s t : Score} (hs : s.Proper) (ht : t.Proper) : (s.either t).Proper := by
  obtain ⟨x⟩ := s
  obtain ⟨y⟩ := t
  obtain ⟨u, hu, rfl, hu'⟩ := hs
  obtain ⟨v, hv, rfl, hv'⟩ := ht
  obtain ⟨h, heq⟩ := either_eq hu hv hu' hv'
  rw [heq]
  refine ⟨_, h, rfl, Format.nearest_le_two_pow (by decide) (by decide) fits_unit
    (Nat.two_pow_pos _) ?_⟩
  have hsum := sum_excess hu' hv'
  generalize Format.double.nearest (u + v) 1 = r at *
  generalize 2 ^ Format.double.scale = one at *
  generalize 2 ^ (Format.double.scale - Format.double.precision) = half at *
  -- The exact sum less the product is one unit at most, since the two differences are not negative.
  have hexact : (u + v) * one ≤ one * one + v * u := by
    obtain ⟨a, rfl⟩ := Nat.exists_eq_add_of_le hu'
    nlinarith [Nat.mul_le_mul_right a hv']
  rcases le_max_iff.mp hsum with hr | hr
  · have := Nat.mul_le_mul_right one hr
    rw [Nat.add_mul]; omega
  · have := Nat.mul_le_mul_right one hr
    rw [Nat.add_mul] at this ⊢; omega

theorem lt_two_mul_sub {n a b r : Nat} (hn : 2 < n) (hab : a ≤ b) (hb : 0 < b) (ha : a < n)
    (hr : b ≤ r) : n < 2 * (r * n - b * a) := by
  obtain ⟨d, rfl⟩ := Nat.exists_eq_add_of_lt ha
  obtain ⟨k, rfl⟩ := Nat.exists_eq_add_of_lt hb
  have hle : (0 + k + 1) * (d + 1) ≤ r * (a + d + 1) - (0 + k + 1) * a := by
    refine Nat.le_sub_of_add_le ?_
    rw [← Nat.mul_add]
    exact Nat.mul_le_mul hr (by omega)
  nlinarith [Nat.zero_le (k * d)]

/-- If one of two conditions is scored, so is their combination. -/
theorem Proper.either_isZero {s t : Score} (hs : s.Proper) (ht : t.Proper)
    (h : t.isZero = false) : (s.either t).isZero = false := by
  obtain ⟨x⟩ := s
  obtain ⟨y⟩ := t
  obtain ⟨u, hu, rfl, hu'⟩ := hs
  obtain ⟨v, hv, rfl, hv'⟩ := ht
  obtain ⟨hfit, heq⟩ := either_eq hu hv hu' hv'
  have hv0 : v ≠ 0 := by simpa [isZero, Binary.isZero] using h
  have hpos : 0 < Format.double.nearest
      (Format.double.nearest (u + v) 1 * 2 ^ Format.double.scale - v * u)
      (2 ^ Format.double.scale) := by
    refine Format.nearest_pos (by decide) (Nat.two_pow_pos _) ?_
    obtain ⟨-, hur, hvr, -⟩ := sum_bounds hu hv hu' hv'
    have htwo : u = 2 ^ Format.double.scale → v = 2 ^ Format.double.scale →
        Format.double.nearest (u + v) 1 = 2 * 2 ^ Format.double.scale := by
      intro hu1 hv1
      rw [hu1, hv1, ← Nat.two_mul]
      exact nearest_twoUnits
    have hlarge : 2 ^ 1 < 2 ^ Format.double.scale := Nat.pow_lt_pow_right (by decide) (by decide)
    generalize Format.double.nearest (u + v) 1 = r at *
    generalize 2 ^ Format.double.scale = one at *
    rcases Nat.lt_or_eq_of_le hu' with hu1 | hu1
    · rcases Nat.le_total u v with huv | huv
      · exact lt_two_mul_sub hlarge huv (by omega) hu1 hvr
      · rw [Nat.mul_comm v u]
        exact lt_two_mul_sub hlarge huv (by omega) (by omega) hur
    · rcases Nat.lt_or_eq_of_le hv' with hv1 | hv1
      · rw [Nat.mul_comm v u]
        exact lt_two_mul_sub hlarge (by omega) (by omega) hv1 hur
      · rw [htwo hu1 hv1, hu1, hv1]
        have := Nat.mul_le_mul_left one hlarge.le
        rw [Nat.mul_assoc]; omega
  rw [heq]
  simpa [isZero, Binary.isZero] using hpos.ne'

/-- An unscored condition adds nothing. -/
theorem Proper.zero_either {s : Score} (hs : s.Proper) : zero.either s = s := by
  obtain ⟨x⟩ := s
  obtain ⟨u, hu, rfl, hu'⟩ := hs
  obtain ⟨h, heq⟩ := either_eq Format.double.fits_zero hu (Nat.zero_le _) hu'
  have hsum := Format.nearest_mul (by decide) hu Nat.one_pos
  have hall := Format.nearest_mul (by decide) hu (Nat.two_pow_pos Format.double.scale)
  rw [Nat.mul_one] at hsum
  refine heq.trans ?_
  simp only [Nat.zero_add, Nat.mul_zero, Nat.sub_zero, hsum, hall]

/-! ## Negative zero -/

/-- A score as it can be made: from zero to one, where zero may have either sign. -/
def Admitted (s : Score) : Prop := s.Proper ∨ s = ⟨.zero true⟩

/-- The sign of nothing does not matter where something that is not negative is added. -/
theorem ofSum_zero (n : Bool) (b den : Nat) :
    (Binary.ofSum n 0 false b den : Double) = Binary.ofSum false 0 false b den := by
  cases n <;> simp [Binary.ofSum]

theorem negative_either {t : Score} (ht : t.Proper) : Score.either ⟨.zero true⟩ t = t := by
  refine Eq.trans ?_ ht.zero_either
  obtain ⟨y⟩ := t
  obtain ⟨v, hv, rfl, hv'⟩ := ht
  have hle : v ≤ 2 ^ (Format.double.scale + 1) * 1 := by rw [two_units]; omega
  have hsum : (Binary.ofSum false 0 false v 1 : Double) = _ :=
    ofSum_eq (k := v) rfl (by simp) Nat.one_pos hle
  simp only [either, zero, Binary.zero, Binary.add, Binary.neg, ofSum_zero true, hsum,
    Binary.mulAdd, Nat.mul_zero, ofSum_zero (false ^^ _)]

theorem either_negative {s : Score} (hs : s.Proper) : s.either ⟨.zero true⟩ = s.either zero := by
  obtain ⟨x⟩ := s
  obtain ⟨u, hu, rfl, hu'⟩ := hs
  have hle : u ≤ 2 ^ (Format.double.scale + 1) * 1 := by rw [two_units]; omega
  have hsum (n : Bool) : (Binary.ofSum false u n 0 1 : Double) = _ :=
    ofSum_eq (k := u) rfl (by simp) Nat.one_pos hle
  simp only [either, zero, Binary.zero, Binary.add, Binary.neg, hsum,
    Binary.mulAdd, Nat.zero_mul, ofSum_zero (_ ^^ _)]

theorem Admitted.both {s t : Score} (hs : s.Admitted) (ht : t.Admitted) : (s.both t).Admitted := by
  rcases hs with hs | rfl
  · rcases ht with ht | rfl
    · exact .inl (hs.both ht)
    · unfold Score.both
      split
      · exact .inr rfl
      · exact .inl hs
  · exact ht

theorem Admitted.either {s t : Score} (hs : s.Admitted) (ht : t.Admitted) :
    (s.either t).Admitted := by
  rcases hs with hs | rfl <;> rcases ht with ht | rfl
  · exact .inl (hs.either ht)
  · rw [either_negative hs]; exact .inl (hs.either proper_zero)
  · rw [negative_either ht]; exact .inl ht
  · exact .inr (by decide +kernel)

theorem Admitted.either_isZero {s t : Score} (hs : s.Admitted) (ht : t.Admitted)
    (h : t.isZero = false) : (s.either t).isZero = false := by
  rcases ht with ht | rfl
  · rcases hs with hs | rfl
    · exact hs.either_isZero ht h
    · rwa [negative_either ht]
  · cases h

end Score

/-- A score of one half. -/
def half : Score :=
  ⟨.finite false (2 ^ (Format.double.scale - 1)) (Format.fits_two_pow (by decide) (by decide))⟩

theorem half_proper : half.Proper :=
  ⟨_, _, rfl, Nat.pow_le_pow_right (by decide) (Nat.sub_le _ _)⟩

end QueryExpr
