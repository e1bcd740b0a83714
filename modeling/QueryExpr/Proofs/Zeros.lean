import QueryExpr.Proofs.Bare
import QueryExpr.Proofs.Wording

/-!
# QueryExpr.Proofs.Zeros

Values that are equal but for the signs of zeros.

* `Binary.canon`, `Value.canon` — numbers and values without the signs of zeros.
* `Value.like`        — structural equality in which not-a-number equals itself.
* `Value.canon_eq_iff` — values are like if and only if they are one value without those signs.
* `Item.canon_untold` — no test of a value sees the sign of a zero, and no arithmetic does.
* `Item.cast_canon`   — nor does a conversion, unless it is one to text.
-/

namespace QueryExpr

/-! ## Numbers -/

namespace Binary

variable {f : Format} {x y : Binary f}

/-- A number without the sign of a zero. -/
def canon : Binary f → Binary f
  | .finite n u h => .finite (n && u != 0) u h
  | x => x

/-- Numeric equality in which not-a-number equals itself. -/
def like (x y : Binary f) : Bool := x.equal y || (x.isNaN && y.isNaN)

@[simp] theorem canon_zero (n : Bool) : (zero n : Binary f).canon = zero false := by
  simp [zero, canon]

/-- Only a negative zero is changed. -/
theorem canon_cases (x : Binary f) : x.canon = x ∨ x = zero true := by
  cases x with
  | finite n u h =>
    by_cases hu : u = 0
    · subst hu
      cases n with
      | false => exact .inl rfl
      | true => exact .inr rfl
    · left
      simp [canon, hu]
  | _ => exact .inl rfl

@[simp] theorem canon_canon (x : Binary f) : x.canon.canon = x.canon := by
  rcases x.canon_cases with h | rfl
  · rw [h, h]
  · simp

@[simp] theorem position_canon (x : Binary f) : x.canon.position = x.position := by
  rcases x.canon_cases with h | rfl
  · rw [h]
  · rfl

@[simp] theorem isZero_canon (x : Binary f) : x.canon.isZero = x.isZero := by cases x <;> rfl

@[simp] theorem isNaN_canon (x : Binary f) : x.canon.isNaN = x.isNaN := by cases x <;> rfl

theorem convert_canon (g : Format) (x : Binary f) :
    (x.canon.convert g).canon = (x.convert g).canon := by
  rcases x.canon_cases with h | rfl
  · rw [h]
  · simp [convert_zero]

theorem position_of_canon (h : x.canon = y.canon) : x.position = y.position := by
  rw [← position_canon, h, position_canon]

theorem compare_of_canon {x' y' : Binary f} (hx : x.canon = x'.canon) (hy : y.canon = y'.canon) :
    x.compare y = x'.compare y' := by
  simp only [compare, position_of_canon hx, position_of_canon hy]

theorem like_of_canon {x' y' : Binary f} (hx : x.canon = x'.canon) (hy : y.canon = y'.canon) :
    x.like y = x'.like y' := by
  simp only [like, equal, compare_of_canon hx hy]
  rw [← isNaN_canon x, hx, isNaN_canon, ← isNaN_canon y, hy, isNaN_canon]

/-- Numbers are like if and only if they are one number without the sign of a zero. -/
theorem canon_eq_iff : x.canon = y.canon ↔ x.like y = true := by
  simp only [like, Bool.or_eq_true, Bool.and_eq_true]
  constructor
  · intro h
    cases hn : x.isNaN with
    | true =>
      rw [← isNaN_canon, h, isNaN_canon] at hn
      exact .inr ⟨rfl, hn⟩
    | false =>
      obtain ⟨a, ha⟩ := position_of_not_nan hn
      have hy : y.position = some a := by rw [← ha, ← position_canon, ← h, position_canon]
      exact .inl (by simp [equal_of_position ha hy])
  · rintro (h | ⟨hx, hy⟩)
    · obtain rfl | ⟨n, rfl, rfl⟩ := eq_or_zeros h
      · rfl
      · simp
    · cases x <;> cases hx
      cases y <;> cases hy
      rfl

/-- Numbers without the sign of a zero are one number, or zeros of different signs. -/
theorem eq_or_zeros_of_canon (h : x.canon = y.canon) :
    x = y ∨ ∃ n, x = zero n ∧ y = zero !n := by
  have hlike := canon_eq_iff.mp h
  simp only [like, Bool.or_eq_true, Bool.and_eq_true] at hlike
  rcases hlike with hequal | ⟨hx, hy⟩
  · exact eq_or_zeros hequal
  · cases x <;> cases hx
    cases y <;> cases hy
    exact .inl rfl

/-! ### Arithmetic -/

theorem canon_neg (x : Binary f) : x.canon.neg.canon = x.neg.canon := by
  rcases x.canon_cases with h | rfl
  · rw [h]
  · rfl

/-- The sign that a number keeps, unless it is zero. -/
theorem sign_canon (n : Bool) (u : Nat) : u = 0 ∨ (n && u != 0) = n := by
  by_cases hu : u = 0
  · exact .inl hu
  · simp [hu]

theorem sign_canon_mul (n m : Bool) (u v : Nat) :
    u * v = 0 ∨ ((n && u != 0) ^^ (m && v != 0)) = (n ^^ m) := by
  rcases sign_canon n u with rfl | hn
  · exact .inl (Nat.zero_mul v)
  · rcases sign_canon m v with rfl | hm
    · exact .inl (Nat.mul_zero u)
    · rw [hn, hm]
      exact .inr rfl

/-- The sign of nothing does not matter, but for the sign of a zero. -/
theorem canon_ofRatio {n n' : Bool} {a : Nat} (h : a = 0 ∨ n = n') (den : Nat) :
    (ofRatio n a den : Binary f).canon = (ofRatio n' a den).canon := by
  rcases h with rfl | rfl
  · simp [ofRatio_zero]
  · rfl

theorem canon_ofSum {n n' m m' : Bool} {a b : Nat} (ha : a = 0 ∨ n = n') (hb : b = 0 ∨ m = m')
    (den : Nat) : (ofSum n a m b den : Binary f).canon = (ofSum n' a m' b den).canon := by
  have hsigned {k k' : Bool} {u : Nat} (h : u = 0 ∨ k = k') :
      (if k then -(u : Int) else u) = if k' then -(u : Int) else u := by
    rcases h with rfl | rfl
    · simp
    · rfl
  simp only [ofSum, hsigned ha, hsigned hb]
  generalize (if n' then -(a : Int) else a) + (if m' then -(b : Int) else b) = sum
  by_cases hsum : sum = 0
  · simp [hsum]
  · simp [hsum]

theorem canon_mul (x y : Binary f) : (x.canon.mul y.canon).canon = (x.mul y).canon := by
  cases x with
  | nan => rfl
  | infinite n =>
    cases y with
    | finite m v hv =>
      by_cases hv0 : v = 0
      · simp [canon, mul, hv0]
      · simp [canon, mul, hv0]
    | _ => rfl
  | finite n u hu =>
    cases y with
    | nan => rfl
    | infinite m =>
      by_cases hu0 : u = 0
      · simp [canon, mul, hu0]
      · simp [canon, mul, hu0]
    | finite m v hv => exact canon_ofRatio (sign_canon_mul n m u v) _

theorem canon_add (x y : Binary f) : (x.canon.add y.canon).canon = (x.add y).canon := by
  cases x with
  | finite n u hu =>
    cases y with
    | finite m v hv => exact canon_ofSum (sign_canon n u) (sign_canon m v) 1
    | _ => rfl
  | _ => cases y <;> rfl

theorem canon_mulAdd (x y z : Binary f) :
    (x.canon.mulAdd y.canon z.canon).canon = (x.mulAdd y z).canon := by
  have hsum : ((x.canon.mul y.canon).add z.canon).canon = ((x.mul y).add z).canon := by
    rw [← canon_add, canon_canon, canon_mul, canon_add]
  cases x with
  | finite n u hu =>
    cases y with
    | finite m v hv =>
      cases z with
      | finite k w hw =>
        have hw0 : w * Nat.pow 2 f.scale = 0 ∨ (k && w != 0) = k :=
          (sign_canon k w).imp_left fun h => by rw [h, Nat.zero_mul]
        exact canon_ofSum (sign_canon_mul n m u v) hw0 _
      | _ => rfl
    | _ => exact hsum
  | _ => exact hsum

end Binary

/-! ## Scores -/

namespace Score

def canon (s : Score) : Score := ⟨s.value.canon⟩

@[simp] theorem canon_canon (s : Score) : s.canon.canon = s.canon := by simp [canon]

@[simp] theorem canon_zero : zero.canon = zero := rfl

@[simp] theorem isZero_canon (s : Score) : s.canon.isZero = s.isZero := by simp [canon, isZero]

theorem canon_both (s t : Score) : (s.canon.both t.canon).canon = (s.both t).canon := by
  simp only [both, isZero_canon]
  split
  · simp
  · split
    · simp
    · simp only [canon, Binary.canon_mul]

theorem canon_either (s t : Score) : (s.canon.either t.canon).canon = (s.either t).canon := by
  simp only [either, canon, mk.injEq]
  rw [← Binary.canon_mulAdd, Binary.canon_canon, Binary.canon_neg, Binary.canon_add,
    Binary.canon_mulAdd]

section
variable {r r' s s' : Score}

theorem isZero_of_canon (h : s.canon = s'.canon) : s.isZero = s'.isZero := by
  rw [← isZero_canon, h, isZero_canon]

theorem both_of_canon (hr : r.canon = r'.canon) (hs : s.canon = s'.canon) :
    (r.both s).canon = (r'.both s').canon := by
  rw [← canon_both, hr, hs, canon_both]

theorem either_of_canon (hr : r.canon = r'.canon) (hs : s.canon = s'.canon) :
    (r.either s).canon = (r'.either s').canon := by
  rw [← canon_either, hr, hs, canon_either]

end

end Score

/-! ## Items -/

/-- Two outcomes that a function makes equal. -/
theorem Except.cases_of_map_eq {ε α β : Type} {f : α → β} {x y : Except ε α}
    (h : x.map f = y.map f) :
    (∃ e, x = .error e ∧ y = .error e) ∨ ∃ a b, x = .ok a ∧ y = .ok b ∧ f a = f b := by
  cases x with
  | error e =>
    cases y with
    | error e' => cases h; exact .inl ⟨e, rfl, rfl⟩
    | ok b => cases h
  | ok a =>
    cases y with
    | error e' => cases h
    | ok b =>
      injection h with h
      exact .inr ⟨a, b, rfl, rfl, h⟩

def Truth.canon (b : Truth) : Truth := ⟨b.value, b.score.canon⟩

theorem Truth.of_canon {a b : Truth} (h : a.canon = b.canon) :
    a.value = b.value ∧ a.score.canon = b.score.canon := by
  injection h with hvalue hscore
  exact ⟨hvalue, hscore⟩

namespace Item

/-- An item without the signs of zeros. -/
def canon : Item → Item
  | .bool b => .bool b.canon
  | .float x => .float x.canon
  | .double x => .double x.canon
  | i => i

/-- Structural equality in which not-a-number equals itself. -/
def like : Item → Item → Bool
  | .bool a, .bool b => a.value == b.value && a.score.value.like b.score.value
  | .integer a, .integer b => a == b
  | .float a, .float b => a.like b
  | .double a, .double b => a.like b
  | .string a, .string b => a == b
  | .untyped a, .untyped b => a == b
  | .anyUri a, .anyUri b => a == b
  | .qname a, .qname b => a == b
  | _, _ => false

theorem canon_eq_iff {i j : Item} : i.canon = j.canon ↔ i.like j = true := by
  cases i <;> cases j <;>
    simp [canon, like, Truth.canon, Score.canon, Binary.canon_eq_iff]

theorem like_of_same {i j : Item} (h : i.same j = true) : i.like j = true := by
  cases i <;> cases j <;> simp [same, Truth.same, Score.equal, like, Binary.like] at h ⊢
  all_goals simp [h]

@[simp] theorem canon_canon (i : Item) : i.canon.canon = i.canon := by
  cases i <;> simp [canon, Truth.canon]

@[simp] theorem type_canon (i : Item) : i.canon.type = i.type := by cases i <;> rfl

@[simp] theorem isUntyped_canon (i : Item) : i.canon.isUntyped = i.isUntyped := by cases i <;> rfl

theorem canon_of_isUntyped {i : Item} (h : i.isUntyped = true) : i.canon = i := by
  cases i with
  | untyped s => rfl
  | _ => cases h

/-! ### Tests -/

theorem contains_of_canon (b : Bounds) {x y : Double} (h : x.canon = y.canon) :
    b.contains x = b.contains y := by
  have hpos := Binary.position_of_canon h
  simp only [Bounds.contains, Binary.atMost_congr rfl hpos, Binary.atMost_congr hpos rfl,
    Binary.less_congr rfl hpos, Binary.less_congr hpos rfl]

theorem measure_canon (b : Bounds) (span : Span) (i : Item) :
    (i.canon.measure span).map b.contains = (i.measure span).map b.contains := by
  cases i with
  | float x => exact congrArg Except.ok (contains_of_canon b (x.convert_canon .double))
  | double x => exact congrArg Except.ok (contains_of_canon b x.canon_canon)
  | _ => rfl

theorem equiv_canon (i j : Item) : i.canon.equiv j.canon = i.equiv j := by
  have hfloat (x : Single) : (x.canon.convert .double).canon = (x.convert .double).canon :=
    x.convert_canon .double
  cases i with
  | integer n =>
    cases j with
    | float y => exact Binary.like_of_canon rfl (hfloat y)
    | double y => exact Binary.like_of_canon rfl y.canon_canon
    | _ => rfl
  | float x =>
    cases j with
    | integer n => exact Binary.like_of_canon (hfloat x) rfl
    | float y => exact Binary.like_of_canon (hfloat x) (hfloat y)
    | double y => exact Binary.like_of_canon (hfloat x) y.canon_canon
    | _ => rfl
  | double x =>
    cases j with
    | integer n => exact Binary.like_of_canon x.canon_canon rfl
    | float y => exact Binary.like_of_canon x.canon_canon (hfloat y)
    | double y => exact Binary.like_of_canon x.canon_canon y.canon_canon
    | _ => rfl
  | _ => cases j <;> rfl

theorem compareTyped_canon (op : CompareOp) (span : Span) (i j : Item) :
    compareTyped op span i.canon j.canon = compareTyped op span i j := by
  have hfloat (x : Single) : (x.canon.convert .double).canon = (x.convert .double).canon :=
    x.convert_canon .double
  have hholds {x x' y y' : Double} (hx : x.canon = x'.canon) (hy : y.canon = y'.canon) :
      (.ok (op.holds (x.compare y)) : Except EvalError Bool) = .ok (op.holds (x'.compare y')) := by
    rw [Binary.compare_of_canon hx hy]
  cases i with
  | integer n =>
    cases j with
    | float y => exact hholds rfl (hfloat y)
    | double y => exact hholds rfl y.canon_canon
    | _ => rfl
  | float x =>
    cases j with
    | integer n => exact hholds (hfloat x) rfl
    | float y => exact hholds (hfloat x) (hfloat y)
    | double y => exact hholds (hfloat x) y.canon_canon
    | _ => rfl
  | double x =>
    cases j with
    | integer n => exact hholds x.canon_canon rfl
    | float y => exact hholds x.canon_canon (hfloat y)
    | double y => exact hholds x.canon_canon y.canon_canon
    | _ => rfl
  | _ => cases j <;> rfl

theorem compareTyped_of_canon (op : CompareOp) (span : Span) {i i' j j' : Item}
    (hi : i.canon = i'.canon) (hj : j.canon = j'.canon) :
    compareTyped op span i j = compareTyped op span i' j' := by
  rw [← compareTyped_canon, hi, hj, compareTyped_canon]

theorem promote_canon (i j : Item) :
    (i.canon.promote j.canon).map canon = (i.promote j).map canon := by
  simp only [promote, isUntyped_canon, type_canon]
  split
  · rename_i h
    simp only [Bool.and_eq_true] at h
    rw [canon_of_isUntyped h.1]
  · exact congrArg Except.ok i.canon_canon

theorem compare_canon (op : CompareOp) (span : Span) (i j : Item) :
    i.canon.compare op span j.canon = i.compare op span j := by
  unfold Item.compare
  rcases Except.cases_of_map_eq (promote_canon i j) with ⟨e, hx, hy⟩ | ⟨a, b, hx, hy, hab⟩
  · rw [hx, hy]
  · rcases Except.cases_of_map_eq (promote_canon j i) with ⟨e, hx', hy'⟩ | ⟨c, d, hx', hy', hcd⟩
    · rw [hx, hy, hx', hy']
    · rw [hx, hy, hx', hy']
      exact compareTyped_of_canon op span hab hcd

/-- No test of a value sees the sign of a zero. -/
theorem canon_untold : Untold canon where
  type := type_canon
  contains := measure_canon
  equiv := equiv_canon
  compare := compare_canon

/-! ### Conversions -/

/-- A zero with a sign, as an item of one of the two formats. -/
def zeroOf (single negative : Bool) : Item :=
  if single then .float (.zero negative) else .double (.zero negative)

section
variable (single negative : Bool)

theorem zeroOf_toBoolean : (zeroOf single negative).toBoolean = .ok false := by
  cases single <;> rfl

theorem zeroOf_toInteger : (zeroOf single negative).toInteger = .ok 0 := by
  have hzero : integerOfDouble? (.zero negative) = some 0 := by
    have htruncate : (Binary.zero negative : Double).truncate = some 0 := by
      simp [Binary.zero, Binary.truncate]
    rw [integerOfDouble?, htruncate]
    rfl
  cases single with
  | true => simp only [zeroOf, if_true, toInteger, Binary.convert_zero, hzero]
  | false => simp only [zeroOf, Bool.false_eq_true, if_false, toInteger, hzero]

theorem zeroOf_toDouble (target : Atom) :
    (zeroOf single negative).toDouble target = .ok (.zero negative) := by
  cases single with
  | true => simp only [zeroOf, if_true, toDouble, Binary.convert_zero]
  | false => rfl

end

/-- A zero is converted to one item whatever its sign is, unless it is converted to text. -/
theorem zeroOf_cast (single negative : Bool) {a : Atom} (hstring : a ≠ .string)
    (huntyped : a ≠ .untyped) :
    ((zeroOf single negative).cast a).map canon = ((zeroOf single false).cast a).map canon := by
  cases a with
  | string => exact absurd rfl hstring
  | untyped => exact absurd rfl huntyped
  | boolean => simp only [cast, zeroOf_toBoolean]
  | integer => simp only [cast, zeroOf_toInteger]
  | double => simp only [cast, zeroOf_toDouble, Except.map, canon, Binary.canon_zero]
  | float =>
    simp only [cast, zeroOf_toDouble, Except.map, canon, Binary.convert_zero, Binary.canon_zero]
  | _ => cases single <;> rfl

/-- A conversion sees the sign of a zero only if it is one to text. -/
theorem cast_canon (i : Item) {a : Atom} (hstring : a ≠ .string) (huntyped : a ≠ .untyped) :
    (i.canon.cast a).map canon = (i.cast a).map canon := by
  cases i with
  | bool b => cases a <;> rfl
  | float x =>
    rcases x.canon_cases with h | rfl
    · rw [canon, h]
    · rw [canon, Binary.canon_zero]
      exact (zeroOf_cast true true hstring huntyped).symm
  | double x =>
    rcases x.canon_cases with h | rfl
    · rw [canon, h]
    · rw [canon, Binary.canon_zero]
      exact (zeroOf_cast false true hstring huntyped).symm
  | _ => rfl

/-- Two items are zeros of one type and of different signs. -/
def OppositeZeros : Item → Item → Prop
  | .float x, .float y => ∃ n, x = .zero n ∧ y = .zero !n
  | .double x, .double y => ∃ n, x = .zero n ∧ y = .zero !n
  | _, _ => False

theorem text_opposite {i j : Item} (h : i.OppositeZeros j) : i.text ≠ j.text := by
  have hzero (n : Bool) :
      (Binary.zero n : Double).text "INF" ≠ (Binary.zero !n : Double).text "INF" := by
    rw [Binary.text_zero, Binary.text_zero]
    cases n <;> simp
  cases i with
  | float x =>
    cases j with
    | float y =>
      obtain ⟨n, rfl, rfl⟩ := h
      simpa only [text, Binary.convert_zero] using hzero n
    | _ => cases h
  | double x =>
    cases j with
    | double y =>
      obtain ⟨n, rfl, rfl⟩ := h
      exact hzero n
    | _ => cases h
  | _ => cases h

/-- Items that are like have one text, unless they are zeros of different signs. -/
theorem text_of_canon {i j : Item} (h : i.canon = j.canon) (hzeros : ¬i.OppositeZeros j) :
    i.text = j.text := by
  cases i with
  | bool a =>
    cases j with
    | bool b =>
      injection h with h
      have hvalue : a.canon.value = b.canon.value := congrArg Truth.value h
      exact congrArg boolText hvalue
    | _ => cases h
  | float x =>
    cases j with
    | float y =>
      injection h with h
      rcases Binary.eq_or_zeros_of_canon h with rfl | hopposite
      · rfl
      · exact absurd hopposite hzeros
    | _ => cases h
  | double x =>
    cases j with
    | double y =>
      injection h with h
      rcases Binary.eq_or_zeros_of_canon h with rfl | hopposite
      · rfl
      · exact absurd hopposite hzeros
    | _ => cases h
  | _ =>
    cases j <;> simp only [canon, reduceCtorEq] at h
    all_goals rw [h]

/-- Conversions of items that are like fail alike or yield like items, unless zeros of different
signs are converted to text. -/
theorem cast_of_canon {i j : Item} (h : i.canon = j.canon) {a : Atom}
    (hzeros : a = .string ∨ a = .untyped → ¬i.OppositeZeros j) :
    (i.cast a).map canon = (j.cast a).map canon := by
  by_cases hstring : a = .string
  · subst hstring
    simp only [cast, text_of_canon h (hzeros (.inl rfl))]
  · by_cases huntyped : a = .untyped
    · subst huntyped
      simp only [cast, text_of_canon h (hzeros (.inr rfl))]
    · rw [← cast_canon i hstring huntyped, h, cast_canon j hstring huntyped]

/-- What is like an item without not-a-number is equal to it. -/
theorem same_of_like {i j : Item} (h : i.like j = true) (hself : i.same i = true) :
    i.same j = true := by
  have hnumber {f : Format} {x y : Binary f} (hxy : x.like y = true) (hx : x.equal x = true) :
      x.equal y = true := by
    cases x with
    | nan => cases hx
    | _ => simpa [Binary.like, Binary.isNaN] using hxy
  cases i <;> cases j <;>
    simp only [like, same, Truth.same, Score.equal, Bool.and_eq_true, Bool.false_eq_true]
      at h hself ⊢
  case bool.bool a b => exact ⟨h.1, hnumber h.2 hself.2⟩
  case float.float x y => exact hnumber h hself
  case double.double x y => exact hnumber h hself
  all_goals exact h

end Item

/-! ## Values -/

namespace Value

/-- A value without the signs of zeros. -/
def canon (v : Value) : Value := v.map Item.canon

/-- Structural equality in which not-a-number equals itself, item by item. -/
def like : Value → Value → Bool
  | [], [] => true
  | a :: as, b :: bs => a.like b && like as bs
  | _, _ => false

/-- Values are like if and only if they are one value without the signs of zeros. -/
theorem canon_eq_iff {v w : Value} : v.canon = w.canon ↔ v.like w = true := by
  induction v generalizing w with
  | nil => cases w <;> simp [canon, like]
  | cons i v ih =>
    cases w with
    | nil => simp [canon, like]
    | cons j w =>
      have hcons (i : Item) (v : Value) : canon (i :: v) = i.canon :: v.canon := rfl
      rw [hcons, hcons, List.cons.injEq, Item.canon_eq_iff, ih, like, Bool.and_eq_true]

theorem like_of_same {v w : Value} (h : v.same w = true) : v.like w = true := by
  induction v generalizing w with
  | nil =>
    cases w with
    | nil => rfl
    | cons j w => cases h
  | cons i v ih =>
    cases w with
    | nil => cases h
    | cons j w =>
      simp only [same, like, Bool.and_eq_true] at h ⊢
      exact ⟨Item.like_of_same h.1, ih h.2⟩

theorem same_of_like {v w : Value} (h : v.like w = true) (hself : v.same v = true) :
    v.same w = true := by
  induction v generalizing w with
  | nil =>
    cases w with
    | nil => rfl
    | cons j w => cases h
  | cons i v ih =>
    cases w with
    | nil => cases h
    | cons j w =>
      simp only [same, like, Bool.and_eq_true] at h hself ⊢
      exact ⟨Item.same_of_like h.1 hself.1, ih h.2 hself.2⟩

theorem grade?_canon (v : Value) : v.canon.grade? = v.grade?.map Truth.canon := by
  have htruth {f : Format} (x : Binary f) : Item.truthOfNumber x.canon = Item.truthOfNumber x := by
    simp only [Item.truthOfNumber, Binary.isZero_canon, Binary.isNaN_canon]
  match v with
  | [] => rfl
  | [i] =>
    cases i with
    | float x => exact congrArg (fun b => some (Truth.plain b)) (htruth x)
    | double x => exact congrArg (fun b => some (Truth.plain b)) (htruth x)
    | _ => rfl
  | _ :: _ :: _ => rfl

end Value
end QueryExpr
