import Mathlib.Tactic.Linarith
import QueryExpr.Binary.Round

/-!
# QueryExpr.Proofs.Rounding

Rounding to the nearest number of a format.

* `Format.nearest_le`, `Format.le_nearest` — rounding does not cross a number of the format.
* `Format.nearest_mul`      — a number of the format stays as it is.
* `Format.nearest_aligned`  — the outcome is a multiple of the spacing around it.
* `Format.nearest_excess`, `Format.nearest_deficit` — it is off by half of the spacing at most.
* `Format.le_nearest_of_short` — what is short of a number by half of the spacing below it at most
  is not rounded to less.
* `Format.nearest_le_two_pow` — a power of two is the outcome up to half of the spacing above it.
-/

namespace QueryExpr

namespace Format

variable {f : Format} {num den : Nat}

/-! ## Spacing -/

theorem granule_eq (f : Format) (u : Nat) : f.granule u = 2 ^ (u.log2 + 1 - f.precision) := rfl

theorem granule_two_pow (f : Format) (n : Nat) :
    f.granule (2 ^ n) = 2 ^ (n + 1 - f.precision) := by
  rw [granule_eq, Nat.log2_two_pow]

/-- The spacing just below a power of two. -/
theorem granule_two_pow_sub_one (f : Format) {n : Nat} (hn : 0 < n) :
    f.granule (2 ^ n - 1) = 2 ^ (n - f.precision) := by
  have hpos := Nat.two_pow_pos (n - 1)
  have hdouble := Nat.two_pow_pred_mul_two hn
  have hlog : (2 ^ n - 1).log2 = n - 1 :=
    (Nat.log2_eq_iff (by omega)).mpr ⟨by omega, by rw [Nat.sub_add_cancel hn]; omega⟩
  rw [granule_eq, hlog, Nat.sub_add_cancel hn]

/-- The spacing around a greater number is a multiple of that around a smaller one. -/
theorem granule_dvd {u v : Nat} (h : u ≤ v) : f.granule u ∣ f.granule v := by
  have hlog : u.log2 ≤ v.log2 := by
    by_cases hu : u = 0
    · simp [hu]
    · exact (Nat.le_log2 (by omega)).mpr ((Nat.log2_self_le hu).trans h)
  exact Nat.pow_dvd_pow 2 (by omega)

/-- The spacing at most doubles where a magnitude doubles. -/
theorem granule_dvd_two_mul (f : Format) (u : Nat) : f.granule u ∣ 2 * f.granule (u / 2) := by
  have hlog : u.log2 ≤ (u / 2).log2 + 1 := by
    rw [Nat.log2_def u]
    split
    · exact Nat.le_refl _
    · exact Nat.zero_le _
  rw [granule_eq, granule_eq, ← Nat.pow_succ']
  exact Nat.pow_dvd_pow 2 (by omega)

theorem Fits.dvd {u : Nat} (h : f.Fits u) : f.granule u ∣ u := Nat.dvd_of_mod_eq_zero h.2

/-- Twice a number of the format is one, unless it is too large. -/
theorem Fits.two_mul {u : Nat} (h : f.Fits u) (hlt : 2 * u < f.limit) : f.Fits (2 * u) := by
  refine ⟨hlt, Nat.mod_eq_zero_of_dvd ((f.granule_dvd_two_mul _).trans ?_)⟩
  rw [Nat.mul_div_cancel_left u Nat.two_pos]
  exact Nat.mul_dvd_mul_left 2 h.dvd

/-- The first number of a binade is a multiple of the spacing in it. -/
theorem granule_dvd_two_pow (hf : 1 ≤ f.precision) (u : Nat) : f.granule u ∣ 2 ^ u.log2 :=
  Nat.pow_dvd_pow 2 (by omega)

/-! ## Neighbours -/

/-- Rounding goes down to a multiple of the spacing or up to the next one, to the one that is
nearer, and at equal distance to the even multiple. -/
theorem nearest_cases (f : Format) (num : Nat) {den : Nat} (hden : 0 < den) :
    ∃ q r, num = q * (f.granule (num / den) * den) + r ∧ r < f.granule (num / den) * den ∧
      ((f.nearest num den = q * f.granule (num / den) ∧
          2 * r ≤ f.granule (num / den) * den ∧
          (2 * r = f.granule (num / den) * den → q % 2 = 0)) ∨
        (f.nearest num den = (q + 1) * f.granule (num / den) ∧
          f.granule (num / den) * den ≤ 2 * r ∧
          (2 * r = f.granule (num / den) * den → q % 2 = 1))) := by
  have hstep : 0 < f.granule (num / den) * den := Nat.mul_pos (f.granule_pos _) hden
  refine ⟨num / (f.granule (num / den) * den), num % (f.granule (num / den) * den), ?_,
    Nat.mod_lt _ hstep, ?_⟩
  · rw [Nat.mul_comm, Nat.div_add_mod]
  · simp only [nearest, Bool.or_eq_true, Bool.and_eq_true, decide_eq_true_eq, beq_iff_eq]
    split
    · rename_i h; exact .inr ⟨rfl, by omega, by omega⟩
    · rename_i h; exact .inl ⟨rfl, by omega, by omega⟩

/-- Rounding does not go beyond a number of the format. -/
theorem nearest_le {b : Nat} (hb : f.Fits b) (hden : 0 < den) (h : num ≤ b * den) :
    f.nearest num den ≤ b := by
  obtain ⟨q, r, hnum, -, hcases⟩ := nearest_cases f num hden
  have hw : num / den ≤ b := Nat.div_le_of_le_mul (by rwa [Nat.mul_comm])
  obtain ⟨m, rfl⟩ := (granule_dvd hw).trans hb.dvd
  have hstep : 0 < f.granule (num / den) * den := Nat.mul_pos (f.granule_pos _) hden
  have hm : q * (f.granule (num / den) * den) + r ≤ m * (f.granule (num / den) * den) := by
    rw [← hnum, ← Nat.mul_assoc, Nat.mul_comm m]; exact h
  rcases hcases with ⟨hn, -⟩ | ⟨hn, hup, -⟩
  · have hqm : q ≤ m := Nat.le_of_mul_le_mul_right (by omega) hstep
    rw [hn, Nat.mul_comm]
    exact Nat.mul_le_mul_left _ hqm
  · have hqm : q < m := Nat.lt_of_mul_lt_mul_right (a := f.granule (num / den) * den) (by omega)
    rw [hn, Nat.mul_comm]
    exact Nat.mul_le_mul_left _ hqm

/-- Rounding does not fall below a number of the format. -/
theorem le_nearest (hf : 1 ≤ f.precision) {b : Nat} (hb : f.Fits b) (hden : 0 < den)
    (h : b * den ≤ num) : b ≤ f.nearest num den := by
  obtain ⟨q, r, hnum, hr, hcases⟩ := nearest_cases f num hden
  have hw : b ≤ num / den := (Nat.le_div_iff_mul_le hden).mpr h
  have hstep : 0 < f.granule (num / den) * den := Nat.mul_pos (f.granule_pos _) hden
  -- In the same binade the spacing is the same; otherwise a power of two stands in between.
  have hmultiple : ∃ m, b ≤ m * f.granule (num / den) ∧ m * f.granule (num / den) ≤ num / den := by
    by_cases hlog : b.log2 = (num / den).log2
    · obtain ⟨m, hm⟩ := hb.dvd
      have hg : f.granule b = f.granule (num / den) := by rw [granule_eq, granule_eq, hlog]
      rw [hg, Nat.mul_comm] at hm
      exact ⟨m, hm.le, hm ▸ hw⟩
    · obtain ⟨m, hm⟩ := f.granule_dvd_two_pow hf (num / den)
      rw [Nat.mul_comm] at hm
      have hne : num / den ≠ 0 := by
        intro h0
        have hb0 : b = 0 := by omega
        exact hlog (by rw [h0, hb0])
      have hlt : b < 2 ^ (num / den).log2 := by
        by_cases hb0 : b = 0
        · rw [hb0]; exact Nat.two_pow_pos _
        · have hle : b.log2 ≤ (num / den).log2 :=
            (Nat.le_log2 hne).mpr ((Nat.log2_self_le hb0).trans hw)
          exact (Nat.log2_lt hb0).mp (by omega)
      exact ⟨m, hm ▸ hlt.le, hm ▸ Nat.log2_self_le hne⟩
  obtain ⟨m, hbm, hmw⟩ := hmultiple
  have hmq : m ≤ q := by
    have hmul : m * (f.granule (num / den) * den) ≤ num := by
      rw [← Nat.mul_assoc]; exact (Nat.le_div_iff_mul_le hden).mp hmw
    have hlt : m * (f.granule (num / den) * den) < (q + 1) * (f.granule (num / den) * den) := by
      rw [Nat.succ_mul]; omega
    exact Nat.lt_succ_iff.mp (Nat.lt_of_mul_lt_mul_right hlt)
  refine hbm.trans ?_
  rcases hcases with ⟨hn, -⟩ | ⟨hn, -⟩
  · rw [hn]; exact Nat.mul_le_mul_right _ hmq
  · rw [hn]; exact Nat.mul_le_mul_right _ (hmq.trans (Nat.le_succ q))

/-- A number of the format stays as it is. -/
theorem nearest_mul (hf : 1 ≤ f.precision) {u : Nat} (hu : f.Fits u) (hden : 0 < den) :
    f.nearest (u * den) den = u :=
  Nat.le_antisymm (nearest_le hu hden (Nat.le_refl _)) (le_nearest hf hu hden (Nat.le_refl _))

/-- A magnitude has at most `precision` digits in front of the spacing around it. -/
theorem lt_two_pow_mul_granule (f : Format) (u : Nat) :
    u < 2 ^ f.precision * f.granule u := by
  refine (Nat.lt_log2_self (n := u)).trans_le ?_
  rw [granule_eq, ← Nat.pow_add]
  exact Nat.pow_le_pow_right (by decide) (by omega)

/-- The outcome is a multiple of the spacing around it. -/
theorem nearest_aligned (hf : 1 ≤ f.precision) (hden : 0 < den) :
    f.nearest num den % f.granule (f.nearest num den) = 0 := by
  obtain ⟨q, r, hnum, -, hcases⟩ := nearest_cases f num hden
  have hq : q < 2 ^ f.precision := by
    have hw : q * f.granule (num / den) ≤ num / den :=
      (Nat.le_div_iff_mul_le hden).mpr (by rw [Nat.mul_assoc]; omega)
    exact Nat.lt_of_mul_lt_mul_right (hw.trans_lt (f.lt_two_pow_mul_granule _))
  have hout : ∃ m, f.nearest num den = m * f.granule (num / den) ∧ m ≤ 2 ^ f.precision := by
    rcases hcases with ⟨hn, -⟩ | ⟨hn, -⟩
    · exact ⟨q, hn, hq.le⟩
    · exact ⟨q + 1, hn, hq⟩
  obtain ⟨m, hn, hm⟩ := hout
  refine Nat.mod_eq_zero_of_dvd ?_
  rw [hn, granule_eq, granule_eq]
  generalize (num / den).log2 + 1 - f.precision = j
  rcases Nat.lt_or_eq_of_le hm with hlt | rfl
  · -- The spacing around the outcome is still the old one, or smaller.
    by_cases hv : m * 2 ^ j = 0
    · rw [hv]; exact Nat.dvd_zero _
    · have hlog : (m * 2 ^ j).log2 < f.precision + j := by
        refine (Nat.log2_lt hv).mpr ?_
        rw [Nat.pow_add]
        exact Nat.mul_lt_mul_of_pos_right hlt (Nat.two_pow_pos j)
      exact (Nat.pow_dvd_pow 2 (by omega)).trans (Nat.dvd_mul_left _ _)
  · rw [← Nat.pow_add, Nat.log2_two_pow]
    exact Nat.pow_dvd_pow 2 (by omega)

/-- The outcome is too large by half of the spacing at most. -/
theorem nearest_excess (f : Format) (num : Nat) (hden : 0 < den) :
    2 * (f.nearest num den * den) ≤ 2 * num + f.granule (num / den) * den := by
  obtain ⟨q, r, hnum, -, hcases⟩ := nearest_cases f num hden
  rcases hcases with ⟨hn, -⟩ | ⟨hn, hup, -⟩
  · rw [hn, Nat.mul_assoc]; omega
  · rw [hn, Nat.mul_assoc, Nat.add_one_mul q]; omega

/-- It is too small by half of the spacing at most. -/
theorem nearest_deficit (f : Format) (num : Nat) (hden : 0 < den) :
    2 * num ≤ 2 * (f.nearest num den * den) + f.granule (num / den) * den := by
  obtain ⟨q, r, hnum, hr, hcases⟩ := nearest_cases f num hden
  rcases hcases with ⟨hn, hdown, -⟩ | ⟨hn, -⟩
  · rw [hn, Nat.mul_assoc]; omega
  · rw [hn, Nat.mul_assoc, Nat.add_one_mul q]; omega

theorem granule_dvd_nearest (f : Format) (num : Nat) (hden : 0 < den) :
    f.granule (num / den) ∣ f.nearest num den := by
  obtain ⟨q, r, -, -, ⟨hn, -⟩ | ⟨hn, -⟩⟩ := nearest_cases f num hden
  · exact ⟨q, hn.trans (Nat.mul_comm _ _)⟩
  · exact ⟨q + 1, hn.trans (Nat.mul_comm _ _)⟩

/-- What is short of a number of the format by half of the spacing below it at most has that spacing
around it. -/
theorem granule_of_short (hf : 1 ≤ f.precision) {b : Nat} (hb : f.Fits b) (hden : 0 < den)
    (hlt : num < b * den) (h : 2 * (b * den) ≤ 2 * num + f.granule (b - 1) * den) :
    f.granule (num / den) = f.granule (b - 1) := by
  have hw : num / den < b := (Nat.div_lt_iff_lt_mul hden).mpr hlt
  refine Nat.dvd_antisymm (granule_dvd (by omega)) ?_
  by_cases hb1 : b - 1 = 0
  · rw [hb1]; exact granule_dvd (Nat.zero_le _)
  -- From the first number of the binade below `b` it is a whole spacing to `b`.
  obtain ⟨k, hk⟩ := f.granule_dvd_two_pow hf (b - 1)
  obtain ⟨m, hm⟩ := (granule_dvd (f := f) (Nat.sub_le b 1)).trans hb.dvd
  have hpow : 2 ^ (b - 1).log2 < b := by have := Nat.log2_self_le hb1; omega
  have hkm : k < m := by
    refine Nat.lt_of_mul_lt_mul_left (a := f.granule (b - 1)) ?_
    rw [← hk, ← hm]; exact hpow
  have hfirst : 2 ^ (b - 1).log2 + f.granule (b - 1) ≤ b :=
    calc 2 ^ (b - 1).log2 + f.granule (b - 1) = f.granule (b - 1) * (k + 1) := by rw [hk]; rfl
      _ ≤ f.granule (b - 1) * m := Nat.mul_le_mul_left _ hkm
      _ = b := hm.symm
  have hlow : 2 ^ (b - 1).log2 ≤ num / den := by
    refine (Nat.le_div_iff_mul_le hden).mpr ?_
    have := Nat.mul_le_mul_right den hfirst
    rw [Nat.add_mul] at this
    omega
  have hlog : f.granule (2 ^ (b - 1).log2) = f.granule (b - 1) := by
    rw [granule_eq, granule_eq, Nat.log2_two_pow]
  exact hlog ▸ granule_dvd hlow

/-- What is short of a number of the format by half of the spacing below it at most is not rounded
to less than this number; half way only if the number is an even multiple of that spacing. -/
theorem le_nearest_of_short (hf : 1 ≤ f.precision) {b : Nat} (hb : f.Fits b) (hden : 0 < den)
    (h : 2 * (b * den) ≤ 2 * num + f.granule (b - 1) * den)
    (heven : 2 * (b * den) = 2 * num + f.granule (b - 1) * den → 2 * f.granule (b - 1) ∣ b) :
    b ≤ f.nearest num den := by
  by_cases hlt : b * den ≤ num
  · exact le_nearest hf hb hden hlt
  have hg := granule_of_short hf hb hden (by omega) h
  obtain ⟨q, r, hnum, hr, hcases⟩ := nearest_cases f num hden
  obtain ⟨m, hm⟩ := (granule_dvd (f := f) (Nat.sub_le b 1)).trans hb.dvd
  rw [hg] at hnum hr hcases
  have hpos : 0 < f.granule (b - 1) := f.granule_pos _
  generalize f.granule (b - 1) = g at *
  obtain rfl : b = m * g := hm.trans (Nat.mul_comm _ _)
  rw [Nat.mul_assoc] at h hlt heven
  have hstep : 0 < g * den := Nat.mul_pos hpos hden
  generalize g * den = step at *
  -- The number is the next multiple.
  have hqm : q < m := Nat.lt_of_mul_lt_mul_right (a := step) (by omega)
  have hmq : m ≤ q + 1 := by
    have : m * step < (q + 2) * step := by rw [Nat.add_mul]; omega
    exact Nat.lt_succ_iff.mp (Nat.lt_of_mul_lt_mul_right this)
  obtain rfl : m = q + 1 := by omega
  rw [Nat.add_one_mul q step] at h hlt heven
  rcases hcases with ⟨-, hdown, htie⟩ | ⟨hn, -⟩
  · have hdvd : 2 ∣ q + 1 := by
      rw [Nat.mul_comm 2 g, Nat.mul_comm (q + 1) g] at heven
      exact Nat.dvd_of_mul_dvd_mul_left hpos (heven (by omega))
    have := htie (by omega)
    omega
  · exact hn.ge

/-- The powers of two below the limit are numbers of the format. -/
theorem fits_two_pow (hf : 1 ≤ f.precision) {s : Nat} (hs : s < 2 ^ f.width + f.precision - 3) :
    f.Fits (2 ^ s) := by
  refine ⟨Nat.pow_lt_pow_right (by decide) hs, Nat.mod_eq_zero_of_dvd ?_⟩
  rw [granule_two_pow]
  exact Nat.pow_dvd_pow 2 (by omega)

theorem fits_one (hf : 3 ≤ f.precision) : f.Fits 1 := by
  have := Nat.two_pow_pos f.width
  exact fits_two_pow (s := 0) (by omega) (by omega)

/-- What is more than half of the smallest number is not rounded to zero. -/
theorem nearest_pos (hf : 3 ≤ f.precision) (hden : 0 < den) (h : den < 2 * num) :
    0 < f.nearest num den := by
  by_cases hle : den ≤ num
  · exact le_nearest (by omega) (fits_one hf) hden (by omega)
  · obtain ⟨q, r, hnum, -, hcases⟩ := nearest_cases f num hden
    have hg : f.granule (num / den) = 1 := by
      rw [Nat.div_eq_of_lt (by omega), granule_eq, Nat.log2_zero,
        Nat.sub_eq_zero_of_le (by omega), Nat.pow_zero]
    simp only [hg, Nat.one_mul, Nat.mul_one] at hcases hnum
    rcases hcases with ⟨hn, hr, -⟩ | ⟨hn, -⟩
    · rcases Nat.eq_zero_or_pos q with rfl | hq
      · omega
      · rw [hn]; exact hq
    · rw [hn]; exact Nat.succ_pos q

/-- Up to half of the spacing above a power of two, this is the nearest number. -/
theorem nearest_le_two_pow (hf : 3 ≤ f.precision) {s : Nat} (hs : f.precision ≤ s)
    (hfit : f.Fits (2 ^ s)) (hden : 0 < den) (h : num ≤ (2 ^ s + 2 ^ (s - f.precision)) * den) :
    f.nearest num den ≤ 2 ^ s := by
  by_cases hle : num ≤ 2 ^ s * den
  · exact nearest_le hfit hden hle
  obtain ⟨q, r, hnum, hr, hcases⟩ := nearest_cases f num hden
  -- The spacing is that above the power, of which the power is an even multiple.
  have hlog : (num / den).log2 = s := by
    have hlow : 2 ^ s ≤ num / den := (Nat.le_div_iff_mul_le hden).mpr (by omega)
    have hhigh : num / den < 2 ^ (s + 1) := by
      refine (Nat.div_lt_iff_lt_mul hden).mpr (h.trans_lt (Nat.mul_lt_mul_of_pos_right ?_ hden))
      have := Nat.pow_lt_pow_right (a := 2) (by decide) (show s - f.precision < s by omega)
      rw [Nat.pow_succ]; omega
    have hne : num / den ≠ 0 := by have := Nat.two_pow_pos s; omega
    have h₁ := (Nat.le_log2 hne).mpr hlow
    have h₂ := (Nat.log2_lt hne).mpr hhigh
    omega
  have hg : f.granule (num / den) = 2 * 2 ^ (s - f.precision) := by
    rw [granule_eq, hlog, ← Nat.pow_succ']
    congr 1; omega
  have hpow : 2 ^ s = 2 ^ (f.precision - 1) * f.granule (num / den) := by
    rw [granule_eq, hlog, ← Nat.pow_add]
    congr 1; omega
  have heven : 2 ^ (f.precision - 1) % 2 = 0 := by
    rw [show f.precision - 1 = (f.precision - 2) + 1 by omega, Nat.pow_succ]; omega
  have hstep : 2 * (2 ^ (s - f.precision) * den) = f.granule (num / den) * den := by
    rw [hg, Nat.mul_assoc]
  rw [Nat.add_mul] at h
  rw [hpow] at h hle ⊢
  rw [Nat.mul_assoc] at h hle
  generalize f.granule (num / den) * den = step at *
  generalize 2 ^ (f.precision - 1) = k at *
  have hlow : k ≤ q := by
    have : k * step < (q + 1) * step := by rw [Nat.add_one_mul q]; omega
    exact Nat.lt_succ_iff.mp (Nat.lt_of_mul_lt_mul_right this)
  have hhigh : q ≤ k := by
    have : q * step < (k + 1) * step := by rw [Nat.add_one_mul k]; omega
    exact Nat.lt_succ_iff.mp (Nat.lt_of_mul_lt_mul_right this)
  obtain rfl : q = k := Nat.le_antisymm hhigh hlow
  rcases hcases with ⟨hn, -⟩ | ⟨-, hup, hodd⟩
  · exact hn.le
  · have := hodd (by omega); omega

end Format

end QueryExpr
