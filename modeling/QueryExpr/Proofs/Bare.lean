import QueryExpr.Proofs.Plain
import QueryExpr.Proofs.ScoreRange

/-!
# QueryExpr.Proofs.Bare

Scored values, and what is left of them without their scores.

* `Value.Proper`  — scores from zero to one, and of true answers only.
* `Value.grade?`  — the truth of a value with its score.
* `Item.Untold`   — a change of items that no test of a value can tell.
* `Value.bare`    — a value without its scores. No test and no conversion tells it from the value.
* `Value.kept`    — a value, or what is left of it.
-/

namespace QueryExpr

/-! ## Proper scores -/

/-- A truth value whose score is in range, and zero unless the value is true. -/
def Truth.Proper (b : Truth) : Prop := b.score.Proper ∧ (b.value = false → b.score = .zero)

def Item.Proper : Item → Prop
  | .bool b => b.Proper
  | _ => True

def Value.Proper (v : Value) : Prop := ∀ i ∈ v, i.Proper

theorem Truth.proper_plain (b : Bool) : (Truth.plain b).Proper := ⟨Score.proper_zero, fun _ => rfl⟩

theorem Item.Unscored.proper {i : Item} (h : i.Unscored) : i.Proper := by
  cases i with
  | bool b => rw [Truth.eq_plain h]; exact Truth.proper_plain _
  | _ => trivial

namespace Value

theorem Unscored.proper {v : Value} (h : v.Unscored) : v.Proper := fun i hi => (h i hi).proper

theorem proper_ofTruth {b : Truth} : (ofTruth b).Proper ↔ b.Proper := by
  simp [Proper, ofTruth, Item.Proper]

/-! ## Grades -/

/-- The truth of a value with its score. -/
def grade? (v : Value) : Option Truth := (v.ebv .unknown).toOption

theorem test?_eq (v : Value) : v.test? = v.grade?.map (·.value) := rfl

theorem ebv_grade (v : Value) (span : Span) : (v.ebv span).toOption = v.grade? := by
  match v with
  | [] => rfl
  | [i] => cases i <;> rfl
  | _ :: _ :: _ => rfl

theorem Proper.grade? {v : Value} (hv : v.Proper) {b : Truth} (h : v.grade? = some b) :
    b.Proper := by
  match v with
  | [] => cases h; exact Truth.proper_plain _
  | [i] =>
    cases i with
    | bool a => cases h; exact hv _ (List.mem_singleton_self _)
    | qname q => cases h
    | _ => cases h; exact Truth.proper_plain _
  | _ :: _ :: _ => cases h

theorem Unscored.grade? {v : Value} (hv : v.Unscored) {b : Truth} (h : v.grade? = some b) :
    b = .plain b.value := by
  match v with
  | [] => cases h; rfl
  | [i] =>
    cases i with
    | bool a => cases h; exact Truth.eq_plain (unscored_singleton.mp hv)
    | qname q => cases h
    | _ => cases h; rfl
  | _ :: _ :: _ => cases h

end Value

/-! ## Tests that tell no change -/

/-- A change of items that no test of a value can tell: types and comparisons stay as they are, and
so do the answers of range tests. -/
structure Item.Untold (φ : Item → Item) : Prop where
  type : ∀ i, (φ i).type = i.type
  contains : ∀ (b : Bounds) span i,
    ((φ i).measure span).map b.contains = (i.measure span).map b.contains
  equiv : ∀ i j, (φ i).equiv (φ j) = i.equiv j
  compare : ∀ op span i j, (φ i).compare op span (φ j) = i.compare op span j

namespace Item.Untold

variable {φ : Item → Item}

theorem admits (hφ : Untold φ) (t : SeqType) (v : Value) : t.admits (v.map φ) = t.admits v := by
  simp only [SeqType.admits, List.length_map, List.all_map, Function.comp_def, hφ.type]

theorem compareWith (hφ : Untold φ) (op : CompareOp) (span : Span) (i : Item) (w : Value) :
    Value.compareWith op span (φ i) (w.map φ) = Value.compareWith op span i w := by
  induction w with
  | nil => rfl
  | cons j w ih =>
    rw [Value.compareWith_cons, List.map_cons, Value.compareWith_cons, hφ.compare, ih]

theorem compare? (hφ : Untold φ) (op : CompareOp) (v w : Value) :
    Value.compare? op (v.map φ) (w.map φ) = Value.compare? op v w := by
  refine congrArg Except.toOption ?_
  induction v with
  | nil => rfl
  | cons i v ih =>
    rw [Value.compare_cons, List.map_cons, Value.compare_cons, hφ.compareWith, ih]

theorem test? (hφ : Untold φ) (b : Bounds) (v : Value) : b.test? (v.map φ) = b.test? v := by
  refine congrArg Except.toOption ?_
  have hcons (i : Item) (is : Value) : b.test .unknown (i :: is) =
      ((i.measure .unknown).map b.contains).bind fun inside =>
        if inside then .ok true else b.test .unknown is := by
    rw [Bounds.test_cons]
    cases i.measure .unknown <;> rfl
  induction v with
  | nil => rfl
  | cons i v ih => rw [hcons, List.map_cons, hcons, hφ.contains, ih]

theorem matchesCase (hφ : Untold φ) (i j : Option Item) :
    QueryExpr.matchesCase (i.map φ) (j.map φ) = QueryExpr.matchesCase i j := by
  cases i <;> cases j <;> first | rfl | exact hφ.equiv _ _

end Item.Untold

theorem Value.item?_map (φ : Item → Item) (v : Value) :
    Value.item? (v.map φ) = v.item?.map (·.map φ) := by
  match v with
  | [] => rfl
  | [_] => rfl
  | _ :: _ :: _ => rfl

/-! ## Without scores -/

/-- An item without its score. -/
def Item.bare : Item → Item
  | .bool b => .bool (.plain b.value)
  | i => i

namespace Item

theorem bare_type (i : Item) : i.bare.type = i.type := by cases i <;> rfl

theorem bare_unscored (i : Item) : i.bare.Unscored := by
  cases i with
  | bool b => rfl
  | _ => trivial

theorem Unscored.bare {i : Item} (h : i.Unscored) : i.bare = i := by
  cases i with
  | bool b => exact congrArg Item.bool (Truth.eq_plain h).symm
  | _ => rfl

theorem bare_cast (i : Item) (a : Atom) : i.bare.cast a = i.cast a := by cases i <;> rfl

theorem bare_measure (i : Item) (span : Span) : i.bare.measure span = i.measure span := by
  cases i <;> rfl

theorem bare_equiv (i j : Item) : i.bare.equiv j.bare = i.equiv j := by
  cases i <;> cases j <;> rfl

theorem bare_compareTyped (op : CompareOp) (span : Span) (i j : Item) :
    compareTyped op span i.bare j.bare = compareTyped op span i j := by
  cases i <;> cases j <;> rfl

theorem bare_promote (i j : Item) : i.bare.promote j.bare = (i.promote j).map bare := by
  have hj : j.bare.isUntyped = j.isUntyped := by cases j <;> rfl
  have hi : i.bare.isUntyped = i.isUntyped := by cases i <;> rfl
  unfold promote
  rw [hi, hj, bare_type, bare_cast]
  split
  · cases hc : i.cast (if j.type.isNumeric then .double else j.type) with
    | error t => rfl
    | ok k => exact congrArg Except.ok (cast_unscored hc).bare.symm
  · rfl

theorem bare_compare (op : CompareOp) (span : Span) (i j : Item) :
    i.bare.compare op span j.bare = i.compare op span j := by
  unfold Item.compare
  rw [bare_promote, bare_promote]
  cases i.promote j with
  | error t => rfl
  | ok i' =>
    cases j.promote i with
    | error t => rfl
    | ok j' => exact bare_compareTyped op span i' j'

theorem bare_untold : Untold bare where
  type := bare_type
  contains b span i := by rw [bare_measure]
  equiv := bare_equiv
  compare := bare_compare

end Item

namespace Value

/-- A value without its scores. -/
def bare (v : Value) : Value := v.map Item.bare

theorem bare_unscored (v : Value) : v.bare.Unscored := by
  intro i hi
  obtain ⟨j, _, rfl⟩ := List.mem_map.mp hi
  exact j.bare_unscored

theorem Unscored.bare {v : Value} (h : v.Unscored) : v.bare = v :=
  (List.map_congr_left fun i hi => (h i hi).bare).trans (List.map_id v)

theorem bare_ofTruth (b : Truth) : (ofTruth b).bare = ofBool b.value := rfl

theorem admits_bare (t : SeqType) (v : Value) : t.admits v.bare = t.admits v :=
  Item.bare_untold.admits t v

theorem grade?_bare (v : Value) : v.bare.grade? = v.grade?.map fun b => .plain b.value := by
  match v with
  | [] => rfl
  | [i] => cases i <;> rfl
  | _ :: _ :: _ => rfl

theorem item?_bare (v : Value) : v.bare.item? = v.item?.map (·.map Item.bare) :=
  item?_map Item.bare v

theorem cast?_bare (v : Value) (t : SeqType) : v.bare.cast? t = v.cast? t := by
  match v with
  | [] => rfl
  | [i] =>
    simp only [cast?, Value.cast, bare, List.map_cons, List.map_nil, single?, Item.bare_cast]
  | _ :: _ :: _ => rfl

theorem compare?_bare (op : CompareOp) (v w : Value) :
    compare? op v.bare w.bare = compare? op v w :=
  Item.bare_untold.compare? op v w

end Value

theorem Bounds.test?_bare (b : Bounds) (v : Value) : b.test? v.bare = b.test? v :=
  Item.bare_untold.test? b v

theorem matchesCase_bare (i j : Option Item) :
    matchesCase (i.map Item.bare) (j.map Item.bare) = matchesCase i j :=
  Item.bare_untold.matchesCase i j

/-- A value, or what is left of it without its scores. -/
def Value.kept (m : Bool) (v : Value) : Value := if m then v.bare else v

namespace Value

theorem Unscored.kept {v : Value} (h : v.Unscored) (m : Bool) : v.kept m = v := by
  cases m with
  | false => rfl
  | true => exact h.bare

theorem Proper.kept {v : Value} (h : v.Proper) (m : Bool) : (v.kept m).Proper := by
  cases m with
  | false => exact h
  | true => exact v.bare_unscored.proper

theorem admits_kept (t : SeqType) (v : Value) (m : Bool) : t.admits (v.kept m) = t.admits v := by
  cases m with
  | false => rfl
  | true => exact admits_bare t v

end Value

end QueryExpr
