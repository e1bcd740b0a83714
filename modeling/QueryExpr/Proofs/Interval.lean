import QueryExpr.Proofs.Plain

/-!
# QueryExpr.Proofs.Interval

Intervals of numbers. A number that is not not-a-number has a position, and the order of numbers
is that of their positions.

* `Bounds.contains_of_isEmpty`, `Bounds.contains_inter`, `Bounds.contains_of_same` — emptiness,
  overlap and equality of bounds mean what they say.
* `Bounds.test?_inter` — two range tests of one item are one test of the overlap.
-/

namespace QueryExpr

/-! ## Numbers -/

namespace Binary

variable {f : Format} {x y : Binary f} {a b : Int}

theorem less_of_position (hx : x.position = some a) (hy : y.position = some b) :
    x.less y = decide (a < b) := by
  simp only [less, compare, hx, hy]
  by_cases h : a < b
  · simp [h, Int.compare_eq_lt.mpr h]
  · have hn : Ord.compare a b ≠ .lt := fun hc => h (Int.compare_eq_lt.mp hc)
    simp [h, hn]

theorem equal_of_position (hx : x.position = some a) (hy : y.position = some b) :
    x.equal y = decide (a = b) := by
  simp only [equal, compare, hx, hy]
  by_cases h : a = b
  · simp [h]
  · have hn : Ord.compare a b ≠ .eq := fun hc => h (Int.compare_eq_eq.mp hc)
    simp [h, hn]

theorem atMost_of_position (hx : x.position = some a) (hy : y.position = some b) :
    x.atMost y = decide (a ≤ b) := by
  rw [atMost, less_of_position hx hy, equal_of_position hx hy]
  by_cases h : a ≤ b
  · have : a < b ∨ a = b := by omega
    simp [h, this]
  · have h₁ : ¬ a < b := by omega
    have h₂ : ¬ a = b := by omega
    simp [h, h₁, h₂]

theorem position_of_not_nan (h : x.isNaN = false) : ∃ a, x.position = some a := by
  cases x with
  | nan => cases h
  | infinite n => exact ⟨_, rfl⟩
  | finite n u hu => exact ⟨_, rfl⟩

theorem isNaN_of_position (h : x.position = some a) : x.isNaN = false := by
  cases x with
  | nan => cases h
  | infinite n => rfl
  | finite n u hu => rfl

theorem position_of_equal (h : x.equal y = true) : x.position = y.position := by
  simp only [equal, compare] at h
  split at h
  · rename_i a b hx hy
    have hc : Ord.compare a b = .eq := by simpa using h
    rw [hx, hy, Int.compare_eq_eq.mp hc]
  · cases h

theorem less_congr {x' y' : Binary f} (hx : x.position = x'.position)
    (hy : y.position = y'.position) : x.less y = x'.less y' := by
  simp only [less, compare, hx, hy]

theorem atMost_congr {x' y' : Binary f} (hx : x.position = x'.position)
    (hy : y.position = y'.position) : x.atMost y = x'.atMost y' := by
  simp only [atMost, less, equal, compare, hx, hy]

end Binary

/-! ## Bounds -/

namespace Bounds

variable {b c : Bounds} {x : Double}

/-- The positions of bounds that are not empty. -/
theorem positions (h : b.isEmpty = false) :
    ∃ p q, b.min.position = some p ∧ b.max.position = some q := by
  simp only [isEmpty, Bool.or_eq_false_iff] at h
  obtain ⟨p, hp⟩ := Binary.position_of_not_nan h.1.2
  obtain ⟨q, hq⟩ := Binary.position_of_not_nan h.2
  exact ⟨p, q, hp, hq⟩

theorem contains_of_position {p q a : Int} (hp : b.min.position = some p)
    (hq : b.max.position = some q) (ha : x.position = some a) :
    b.contains x = true ↔ (if b.minInclusive then p ≤ a else p < a) ∧
      (if b.maxInclusive then a ≤ q else a < q) := by
  simp only [contains, Binary.atMost_of_position hp ha, Binary.less_of_position hp ha,
    Binary.atMost_of_position ha hq, Binary.less_of_position ha hq, Bool.and_eq_true]
  cases b.minInclusive <;> cases b.maxInclusive <;> simp

theorem contains_nan (h : x.position = none) : b.contains x = false := by
  simp [contains, Binary.atMost, Binary.less, Binary.equal, Binary.compare, h]

/-- Nothing lies between bounds that are crossed or no numbers. -/
theorem contains_of_isEmpty (h : b.isEmpty = true) : b.contains x = false := by
  cases hp : b.min.position with
  | none =>
    simp [contains, Binary.atMost, Binary.less, Binary.equal, Binary.compare, hp]
  | some p =>
    cases hq : b.max.position with
    | none =>
      cases ha : x.position <;>
        simp [contains, Binary.atMost, Binary.less, Binary.equal, Binary.compare, hq, ha]
    | some q =>
      cases ha : x.position with
      | none => exact contains_nan ha
      | some a =>
        have hp' : b.min.isNaN = false := Binary.isNaN_of_position hp
        have hq' : b.max.isNaN = false := Binary.isNaN_of_position hq
        simp only [isEmpty, Binary.less_of_position hq hp, Binary.equal_of_position hp hq, hp',
          hq', Bool.or_false, Bool.or_eq_true, Bool.and_eq_true, decide_eq_true_eq,
          Bool.not_eq_true'] at h
        rw [Bool.eq_false_iff, ne_eq, contains_of_position hp hq ha]
        grind

/-- The overlap holds what both intervals hold. -/
theorem contains_inter (hb : b.isEmpty = false) (hc : c.isEmpty = false) :
    (b.inter c).contains x = (b.contains x && c.contains x) := by
  cases hx : x.position with
  | none => simp only [contains_nan hx, Bool.and_self]
  | some a =>
    obtain ⟨p, q, hp, hq⟩ := positions hb
    obtain ⟨r, s, hr, hs⟩ := positions hc
    have hmin : (b.inter c).min.position = some (if p < r then r else p) := by
      simp only [inter, Binary.less_of_position hp hr]
      by_cases h : p < r <;> simp [h, hp, hr]
    have hmax : (b.inter c).max.position = some (if s < q then s else q) := by
      simp only [inter, Binary.less_of_position hs hq]
      by_cases h : s < q <;> simp [h, hs, hq]
    rw [Bool.eq_iff_iff, Bool.and_eq_true, contains_of_position hmin hmax hx,
      contains_of_position hp hq hx, contains_of_position hr hs hx]
    simp only [inter, Binary.less_of_position hp hr, Binary.less_of_position hr hp,
      Binary.less_of_position hs hq, Binary.less_of_position hq hs]
    grind

/-- Equal bounds hold the same numbers. -/
theorem contains_of_same (h : b.same c = true) : b.contains x = c.contains x := by
  simp only [same, Bool.and_eq_true, beq_iff_eq] at h
  obtain ⟨⟨⟨hmin, hi⟩, hmax⟩, hj⟩ := h
  have hp := Binary.position_of_equal hmin
  have hq := Binary.position_of_equal hmax
  simp only [contains, hi, hj, Binary.atMost_congr hp rfl, Binary.less_congr hp rfl,
    Binary.atMost_congr rfl hq, Binary.less_congr rfl hq]
/-! ## Tests -/

theorem test?_single (b : Bounds) (i : Item) :
    b.test? [i] = (i.measure .unknown).toOption.map b.contains := by
  unfold test?
  rw [test_cons]
  cases i.measure .unknown with
  | error t => rfl
  | ok x =>
    cases h : b.contains x <;> simp [Except.bind, Except.toOption, test, h]

theorem test?_of_isEmpty (h : b.isEmpty = true) {v : Value} {r : Bool} (hr : b.test? v = some r) :
    r = false := by
  induction v with
  | nil => cases hr; rfl
  | cons i v ih =>
    unfold test? at hr ih
    rw [test_cons] at hr
    cases hm : i.measure .unknown with
    | error t => rw [hm] at hr; cases hr
    | ok x =>
      simp only [hm, Except.bind, contains_of_isEmpty h, Bool.false_eq_true, if_false] at hr
      exact ih hr

/-- Whether a test of at most one item fails does not depend on the bounds. -/
theorem test?_fails {v : Value} (hv : v.length ≤ 1) (h : b.test? v = none) (c : Bounds) :
    c.test? v = none := by
  match v with
  | [] => cases h
  | [i] =>
    rw [test?_single, Option.map_eq_none_iff] at h ⊢
    exact h
  | _ :: _ :: _ => simp at hv

/-- Two tests of at most one item are one test of the overlap. -/
theorem test?_inter (hb : b.isEmpty = false) (hc : c.isEmpty = false) {v : Value}
    (hv : v.length ≤ 1) {r : Bool} (hr : b.test? v = some r) :
    ∃ s, c.test? v = some s ∧ (b.inter c).test? v = some (r && s) := by
  match v with
  | [] => cases hr; exact ⟨false, rfl, rfl⟩
  | [i] =>
    rw [test?_single] at hr
    obtain ⟨x, hx, rfl⟩ := Option.map_eq_some_iff.mp hr
    refine ⟨c.contains x, ?_, ?_⟩
    · rw [test?_single, hx, Option.map_some]
    · rw [test?_single, hx, Option.map_some, contains_inter hb hc]
  | _ :: _ :: _ => simp at hv

/-- No item passes two tests without an overlap. -/
theorem test?_disjoint (h : (b.inter c).isEmpty = true) {v : Value} (hv : v.length ≤ 1)
    {r s : Bool} (hr : b.test? v = some r) (hs : c.test? v = some s) : (r && s) = false := by
  by_cases hb : b.isEmpty = true
  · rw [test?_of_isEmpty hb hr, Bool.false_and]
  by_cases hc : c.isEmpty = true
  · rw [test?_of_isEmpty hc hs, Bool.and_false]
  rw [Bool.not_eq_true] at hb hc
  obtain ⟨x, hx, hrx⟩ := test?_inter hb hc hv hr
  obtain rfl : s = x := Option.some.inj (hs.symm.trans hx)
  exact test?_of_isEmpty h hrx

theorem test?_of_same (h : b.same c = true) (v : Value) : b.test? v = c.test? v := by
  induction v with
  | nil => rfl
  | cons i v ih =>
    unfold test? at ih ⊢
    rw [test_cons, test_cons]
    refine Except.toOption_congr rfl fun x => ?_
    rw [contains_of_same h]
    split
    · rfl
    · exact ih

end Bounds
end QueryExpr
