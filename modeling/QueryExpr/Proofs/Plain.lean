import QueryExpr.Expr.Equality
import QueryExpr.Expr.Match
import QueryExpr.Proofs.Types

/-!
# QueryExpr.Proofs.Plain

Plain values, and the tests on values without the texts of their errors.

* `Value.Plain` — neither binary numbers nor scores; equality of such values is structural.
* `Value.Unscored` — no scores; the truth of such a value is all of its effective boolean value.
* `Value.test?`, `Value.item?`, `Value.cast?`, `Value.compare?`, `Bounds.test?` — what a test or a
  conversion yields, if it yields anything.
-/

namespace QueryExpr

/-! ## Plain values -/

/-- An item that is no binary number and has no score. -/
def Item.Plain : Item → Prop
  | .bool b => b.score = .zero
  | .float _ => False
  | .double _ => False
  | _ => True

def Value.Plain (v : Value) : Prop := ∀ i ∈ v, i.Plain

/-- An item without a score. -/
def Item.Unscored : Item → Prop
  | .bool b => b.score = .zero
  | _ => True

def Value.Unscored (v : Value) : Prop := ∀ i ∈ v, i.Unscored

theorem Item.Plain.unscored {i : Item} (h : i.Plain) : i.Unscored := by
  cases i with
  | bool b => exact h
  | _ => trivial

theorem Truth.eq_plain {b : Truth} (h : b.score = .zero) : b = .plain b.value := by
  cases b; cases h; rfl

theorem Item.eq_of_same {i j : Item} (hi : i.Plain) (hj : j.Plain) (h : i.same j = true) :
    i = j := by
  cases i with
  | bool a =>
    cases j with
    | bool b =>
      simp only [Item.same, Truth.same, Bool.and_eq_true, beq_iff_eq] at h
      rw [Truth.eq_plain hi, Truth.eq_plain hj, h.1]
    | _ => simp [Item.same] at h
  | float x => exact hi.elim
  | double x => exact hi.elim
  | _ => cases j <;> simp [Item.same] at h; rw [h]

theorem Item.cast_unscored {i j : Item} {a : Atom} (h : i.cast a = .ok j) : j.Unscored := by
  have hj := Item.cast_type h
  cases j with
  | bool b =>
    obtain rfl : a = .boolean := hj.symm
    simp only [Item.cast] at h
    cases hb : i.toBoolean with
    | error e => rw [hb] at h; cases h
    | ok b => rw [hb] at h; cases h; rfl
  | _ => trivial

/-- A cast yields a plain item, unless it is one to a binary number. -/
theorem Item.cast_plain {i j : Item} {a : Atom} (h : i.cast a = .ok j) (hf : a ≠ .float)
    (hd : a ≠ .double) : j.Plain := by
  have hj := Item.cast_type h
  cases j with
  | bool b => exact Item.cast_unscored h
  | float x => exact absurd hj.symm hf
  | double x => exact absurd hj.symm hd
  | _ => trivial

namespace Value

theorem plain_nil : Plain [] := fun _ h => nomatch h

theorem plain_singleton {i : Item} : Plain [i] ↔ i.Plain := by simp [Plain]

theorem plain_ofBool (b : Bool) : (ofBool b).Plain := plain_singleton.mpr rfl

theorem Plain.append {v w : Value} (hv : v.Plain) (hw : w.Plain) : Plain (v ++ w) :=
  List.forall_mem_append.mpr ⟨hv, hw⟩

theorem eq_of_same {v w : Value} (hv : v.Plain) (hw : w.Plain) (h : v.same w = true) : v = w := by
  induction v generalizing w with
  | nil =>
    cases w with
    | nil => rfl
    | cons j w => cases h
  | cons i v ih =>
    cases w with
    | nil => cases h
    | cons j w =>
      obtain ⟨hi, hv⟩ := List.forall_mem_cons.mp hv
      obtain ⟨hj, hw⟩ := List.forall_mem_cons.mp hw
      simp only [Value.same, Bool.and_eq_true] at h
      rw [Item.eq_of_same hi hj h.1, ih hv hw h.2]

theorem Plain.unscored {v : Value} (hv : v.Plain) : v.Unscored := fun i hi => (hv i hi).unscored

theorem unscored_singleton {i : Item} : Unscored [i] ↔ i.Unscored := by simp [Unscored]

theorem unscored_ofBool (b : Bool) : (ofBool b).Unscored := (plain_ofBool b).unscored

/-- The effective boolean value of an unscored value has no score. -/
theorem Unscored.ebv {v : Value} (hv : v.Unscored) {span : Span} {b : Truth}
    (h : v.ebv span = .ok b) : b = .plain b.value := by
  match v with
  | [] => cases h; rfl
  | [i] =>
    have hi := unscored_singleton.mp hv
    cases i with
    | bool b' => cases h; exact Truth.eq_plain hi
    | qname q => cases h
    | _ => cases h; rfl
  | _ :: _ :: _ => cases h

theorem Plain.ebv {v : Value} (hv : v.Plain) {span : Span} {b : Truth} (h : v.ebv span = .ok b) :
    b = .plain b.value :=
  hv.unscored.ebv h

theorem cast_unscored {v w : Value} {t : SeqType} {span : Span} (h : v.cast t span = .ok w) :
    w.Unscored := by
  rcases cast_eq_ok h with ⟨_, rfl, _⟩ | ⟨i, j, _, rfl, hj⟩
  · exact plain_nil.unscored
  · exact unscored_singleton.mpr (Item.cast_unscored hj)

theorem cast_plain {v w : Value} {t : SeqType} {span : Span} (h : v.cast t span = .ok w)
    (hf : t.atom ≠ .float) (hd : t.atom ≠ .double) : w.Plain := by
  rcases cast_eq_ok h with ⟨_, rfl, _⟩ | ⟨i, j, _, rfl, hj⟩
  · exact plain_nil
  · exact plain_singleton.mpr (Item.cast_plain hj hf hd)

/-! ## Tests -/

/-- The truth of a value. -/
def test? (v : Value) : Option Bool := (v.ebv .unknown).toOption.map (·.value)

/-- The item of a value of at most one item. -/
def item? (v : Value) : Option (Option Item) := (v.single? .unknown).toOption

def cast? (v : Value) (t : SeqType) : Option Value := (v.cast t .unknown).toOption

def compare? (op : CompareOp) (v w : Value) : Option Bool := (v.compare op .unknown w).toOption

theorem ebv_toOption (v : Value) (span : Span) :
    (v.ebv span).toOption.map (·.value) = v.test? := by
  match v with
  | [] => rfl
  | [i] => cases i <;> rfl
  | _ :: _ :: _ => rfl

/-- The truth of a value is that of its effective boolean value. -/
theorem ebv_cases (v : Value) (span : Span) :
    (∃ t, v.ebv span = .error t ∧ v.test? = none) ∨
      ∃ b, v.ebv span = .ok b ∧ v.test? = some b.value := by
  have ht := v.ebv_toOption span
  cases hb : v.ebv span with
  | error t => rw [hb] at ht; exact .inl ⟨t, rfl, ht.symm⟩
  | ok b => rw [hb] at ht; exact .inr ⟨b, rfl, ht.symm⟩

/-- The truth of an unscored value is all there is to say. -/
theorem Unscored.ebv_cases {v : Value} (hv : v.Unscored) (span : Span) :
    (∃ t, v.ebv span = .error t ∧ v.test? = none) ∨
      ∃ b, v.ebv span = .ok (.plain b) ∧ v.test? = some b := by
  refine (v.ebv_cases span).imp_right fun ⟨b, hb, ht⟩ => ⟨b.value, ?_, ht⟩
  rw [← hv.ebv hb, hb]

theorem single_toOption (v : Value) (span : Span) : (v.single? span).toOption = v.item? := by
  match v with
  | [] => rfl
  | [i] => rfl
  | _ :: _ :: _ => rfl

/-- The item of a value of at most one item is the one that it is asked for. -/
theorem single_cases (v : Value) (span : Span) :
    (∃ t, v.single? span = .error t ∧ v.item? = none) ∨
      ∃ i, v.single? span = .ok i ∧ v.item? = some i := by
  have hi := v.single_toOption span
  cases hj : v.single? span with
  | error t => rw [hj] at hi; exact .inl ⟨t, rfl, hi.symm⟩
  | ok i => rw [hj] at hi; exact .inr ⟨i, rfl, hi.symm⟩

theorem cast_toOption (v : Value) (t : SeqType) (span : Span) :
    (v.cast t span).toOption = v.cast? t := by
  match v with
  | [] => rfl
  | [i] => rfl
  | _ :: _ :: _ => rfl

end Value

theorem Item.compareTyped_toOption (op : CompareOp) (span : Span) (a b : Item) :
    (compareTyped op span a b).toOption = (compareTyped op .unknown a b).toOption := by
  unfold compareTyped
  split
  · rfl
  · rfl
  · split <;> rfl
  · split
    · rfl
    · split <;> rfl

theorem Item.compare_toOption (op : CompareOp) (span : Span) (a b : Item) :
    (a.compare op span b).toOption = (a.compare op .unknown b).toOption := by
  unfold Item.compare
  split
  · rfl
  · split
    · rfl
    · exact compareTyped_toOption op span _ _

theorem toOption_eq_some {ε α : Type} {x : Except ε α} {o : Option α} (h : x.toOption = o) {a : α}
    (hx : x = .ok a) : o = some a := by
  rw [hx] at h; exact h.symm

theorem toOption_eq_none {ε α : Type} {x : Except ε α} {o : Option α} (h : x.toOption = o) {t : ε}
    (hx : x = .error t) : o = none := by
  rw [hx] at h; exact h.symm

theorem toOption_eq_some_iff {ε α : Type} {x : Except ε α} {a : α} :
    x.toOption = some a ↔ x = .ok a := by
  cases x <;> simp [Except.toOption]

theorem Except.toOption_map {ε α β : Type} (x : Except ε α) (f : α → β) :
    (x.map f).toOption = x.toOption.map f := by
  cases x <;> rfl

/-- Two steps that are equal without their errors go on to what is equal without its errors. -/
theorem Except.toOption_congr {ε α β : Type} {x y : Except ε α} {f g : α → Except ε β}
    (h : x.toOption = y.toOption) (hf : ∀ a, (f a).toOption = (g a).toOption) :
    (x.bind f).toOption = (y.bind g).toOption := by
  cases x with
  | error e =>
    cases y with
    | error e' => rfl
    | ok b => cases h
  | ok a =>
    cases y with
    | error e' => cases h
    | ok b => cases h; exact hf a

namespace Value

theorem compareWith_cons (op : CompareOp) (span : Span) (a b : Item) (bs : Value) :
    compareWith op span a (b :: bs) =
      (a.compare op span b).bind fun r =>
        if r = true then .ok true else compareWith op span a bs := by
  rw [compareWith]
  split
  · rename_i h; rw [h]; rfl
  · rename_i h; rw [h]; rfl
  · rename_i h; rw [h]; rfl

theorem compare_cons (op : CompareOp) (span : Span) (a : Item) (as bs : Value) :
    compare op span (a :: as) bs =
      (compareWith op span a bs).bind fun r =>
        if r = true then .ok true else compare op span as bs := by
  rw [compare]
  split
  · rename_i h; rw [h]; rfl
  · rename_i h; rw [h]; rfl
  · rename_i h; rw [h]; rfl

theorem compareWith_toOption (op : CompareOp) (span : Span) (a : Item) (bs : Value) :
    (compareWith op span a bs).toOption = (compareWith op .unknown a bs).toOption := by
  induction bs with
  | nil => rfl
  | cons b bs ih =>
    rw [compareWith_cons, compareWith_cons]
    refine Except.toOption_congr (Item.compare_toOption op span a b) fun r => ?_
    split
    · rfl
    · exact ih

theorem compare_toOption (op : CompareOp) (span : Span) (v w : Value) :
    (v.compare op span w).toOption = compare? op v w := by
  induction v with
  | nil => rfl
  | cons a v ih =>
    unfold compare?
    rw [compare_cons, compare_cons]
    refine Except.toOption_congr (compareWith_toOption op span a w) fun r => ?_
    split
    · rfl
    · exact ih

theorem compareWith_append (op : CompareOp) (span : Span) (a : Item) (v w : Value) :
    compareWith op span a (v ++ w) =
      (compareWith op span a v).bind fun r =>
        if r = true then .ok true else compareWith op span a w := by
  induction v with
  | nil => rfl
  | cons b v ih =>
    rw [List.cons_append, compareWith_cons, compareWith_cons]
    cases a.compare op span b with
    | error t => rfl
    | ok r =>
      cases r with
      | true => rfl
      | false => exact ih

theorem compare?_single (op : CompareOp) (a : Item) (v : Value) :
    compare? op [a] v = (compareWith op .unknown a v).toOption := by
  unfold compare?
  rw [compare_cons]
  cases compareWith op .unknown a v with
  | error t => rfl
  | ok r => cases r <;> rfl

/-- One item is compared with two sequences, one after the other. -/
theorem compare?_append {op : CompareOp} {u : Value} (hu : u.length ≤ 1) (v w : Value) :
    compare? op u (v ++ w) =
      (compare? op u v).bind fun r => if r = true then some true else compare? op u w := by
  match u with
  | [] => rfl
  | [a] =>
    simp only [compare?_single, compareWith_append]
    cases compareWith op .unknown a v with
    | error t => rfl
    | ok r => cases r <;> rfl
  | _ :: _ :: _ => simp at hu

end Value

/-- The answer of a range test. -/
def Bounds.test? (b : Bounds) (v : Value) : Option Bool := (b.test .unknown v).toOption

theorem Item.measure_toOption (i : Item) (span : Span) :
    (i.measure span).toOption = (i.measure .unknown).toOption := by
  cases i <;> simp only [measure] <;> split <;> rfl

namespace Bounds

theorem test_cons (b : Bounds) (span : Span) (i : Item) (is : Value) :
    b.test span (i :: is) =
      (i.measure span).bind fun x => if b.contains x then .ok true else b.test span is := by
  rw [test]
  split
  · rename_i h; rw [h]; rfl
  · rename_i h; rw [h]; rfl

theorem test_toOption (b : Bounds) (v : Value) (span : Span) :
    (b.test span v).toOption = b.test? v := by
  induction v with
  | nil => rfl
  | cons i v ih =>
    unfold test?
    rw [test_cons, test_cons]
    refine Except.toOption_congr (Item.measure_toOption i span) fun x => ?_
    split
    · rfl
    · exact ih

end Bounds
end QueryExpr
