import QueryExpr.Proofs.Interval

/-!
# QueryExpr.Proofs.Comparison

Comparison with its operands exchanged, and comparison next to the equivalence a switch goes by.

* `Item.compare_swap`        — two items in the other order, for the operator that is exchanged.
* `Value.compare_exchanged`  — the same for two sequences, whatever pair the search finds first.
* `Item.compareTyped_eq_ok`  — items that are not converted are equal where they are equivalent.
* `Item.equiv_compare`       — with conversion, they are but for white space around a URI.
-/

namespace QueryExpr

/-! ## Orders -/

theorem Binary.compare_swap {f : Format} (x y : Binary f) :
    y.compare x = (x.compare y).map Ordering.swap := by
  unfold compare
  cases x.position with
  | none => cases y.position <;> rfl
  | some a =>
    cases y.position with
    | none => rfl
    | some b => exact congrArg some (Int.compare_swap a b).symm

theorem Binary.isNaN_ofRatio {f : Format} (n : Bool) (num den : Nat) :
    (ofRatio n num den : Binary f).isNaN = false := by
  unfold ofRatio ofUnits
  split <;> rfl

theorem CompareOp.holds_swap (op : CompareOp) (o : Option Ordering) :
    op.swap.holds (o.map Ordering.swap) = op.holds o := by
  cases o with
  | none => cases op <;> rfl
  | some o => cases op <;> cases o <;> rfl

/-- An order that is turned around by exchange, seen through an operator. -/
theorem CompareOp.holds_exchanged {α : Type} [Ord α] [Std.OrientedOrd α] (op : CompareOp)
    (x y : α) :
    op.swap.holds (some (Ord.compare y x)) = op.holds (some (Ord.compare x y)) := by
  rw [Std.OrientedOrd.eq_swap (a := y), ← Option.map_some, holds_swap]

theorem CompareOp.holds_eq (o : Option Ordering) : CompareOp.eq.holds o = (o == some .eq) := by
  cases o with
  | none => rfl
  | some o => cases o <;> rfl

theorem CompareOp.holds_eq_compare {α : Type} [Ord α] [Std.LawfulEqOrd α] {x y : α} :
    CompareOp.eq.holds (some (Ord.compare x y)) = true ↔ x = y := by
  rw [holds_eq, beq_iff_eq, Option.some.injEq, Std.compare_eq_iff_eq]

/-- Two numbers are equal where they are equivalent and not both not-a-number. -/
theorem Binary.holds_eq_compare {f : Format} (x y : Binary f) :
    CompareOp.eq.holds (x.compare y) = true ↔
      (x.equal y || (x.isNaN && y.isNaN)) = true ∧ ¬ (x.isNaN = true ∧ y.isNaN = true) := by
  rw [CompareOp.holds_eq, ← equal]
  cases x with
  | nan =>
    have hequal : (nan : Binary f).equal y = false := rfl
    simp only [hequal, isNaN, Bool.false_or, Bool.true_and, true_and, Bool.false_eq_true,
      and_not_self]
  | _ =>
    simp only [isNaN, Bool.false_and, Bool.or_false, Bool.false_eq_true, false_and,
      not_false_eq_true, and_true]

/-! ## Exchanged items -/

namespace Item

/-- Without a conversion, items compare in the other order as they do in this one. Names have no
order, only the operators that exchange leaves as they are. -/
theorem compareTyped_swap (op : CompareOp) (span span' : Span) (a b : Item) :
    (compareTyped op.swap span' b a).toOption = (compareTyped op span a b).toOption := by
  have numbers (x y : Double) : op.swap.holds (y.compare x) = op.holds (x.compare y) := by
    rw [Binary.compare_swap, CompareOp.holds_swap]
  cases a with
  | bool p =>
    cases b with
    | bool q => exact congrArg some (op.holds_exchanged p.value q.value)
    | _ => rfl
  | integer i =>
    cases b with
    | integer j => exact congrArg some (op.holds_exchanged i.toInt j.toInt)
    | float y | double y => exact congrArg some (numbers _ _)
    | _ => rfl
  | float x | double x =>
    cases b with
    | integer y | float y | double y => exact congrArg some (numbers _ _)
    | _ => rfl
  | string s | untyped s | anyUri s =>
    cases b with
    | string t | untyped t | anyUri t => exact congrArg some (op.holds_exchanged s t)
    | _ => rfl
  | qname p =>
    cases b with
    | qname q =>
      have hsame (r : CompareOp) : r.holds (some (if q = p then .eq else .lt)) =
          r.holds (some (if p = q then .eq else .lt)) := by
        simp only [@eq_comm _ q p]
      cases op with
      | eq | ne => exact congrArg some (hsame _)
      | _ => rfl
    | _ => rfl

/-- Two items compare in the other order as they do in this one, and fail together. Which of them
is converted does not depend on the order. -/
theorem compare_swap (op : CompareOp) (span span' : Span) (a b : Item) :
    (b.compare op.swap span' a).toOption = (a.compare op span b).toOption := by
  unfold compare
  cases a.promote b with
  | error e => cases b.promote a <;> rfl
  | ok a' =>
    cases b.promote a with
    | error e => rfl
    | ok b' => exact compareTyped_swap op span span' a' b'

/-! ## Equivalent items -/

def isNaN : Item → Bool
  | .float x => x.isNaN
  | .double x => x.isNaN
  | _ => false

/-- Only not-a-number is not-a-number as a double. -/
theorem isNaN_of_number? {i : Item} {x : Double} (h : i.number? = some x) : x.isNaN = i.isNaN := by
  cases i with
  | integer i =>
    obtain rfl : Binary.ofInt i.toInt = x := Option.some.inj h
    exact Binary.isNaN_ofRatio ..
  | float y =>
    obtain rfl : y.convert .double = x := Option.some.inj h
    cases y with
    | finite n u hu => exact Binary.isNaN_ofRatio ..
    | _ => rfl
  | double y =>
    obtain rfl : y = x := Option.some.inj h
    rfl
  | _ => cases h

/-- Items that are not converted are equal where they are equivalent, not-a-number apart, which is
equivalent to itself and equal to nothing. -/
theorem compareTyped_eq_ok (span : Span) (a b : Item) :
    compareTyped .eq span a b = .ok true ↔
      a.equiv b = true ∧ ¬ (a.isNaN = true ∧ b.isNaN = true) := by
  have numbers {a b : Item} {x y : Double} (hx : a.number? = some x) (hy : b.number? = some y) :
      (Except.ok (CompareOp.eq.holds (x.compare y)) : Except EvalError Bool) = .ok true ↔
        (x.equal y || (x.isNaN && y.isNaN)) = true ∧ ¬ (a.isNaN = true ∧ b.isNaN = true) := by
    rw [← isNaN_of_number? hx, ← isNaN_of_number? hy, Except.ok.injEq, Binary.holds_eq_compare]
  have others {r e : Bool} (h : r = true ↔ e = true) :
      (Except.ok r : Except EvalError Bool) = .ok true ↔
        e = true ∧ ¬ (false = true ∧ false = true) := by
    simp [h]
  have texts (s t : String) :
      CompareOp.eq.holds (some (Ord.compare s t)) = true ↔ (s == t) = true := by
    rw [CompareOp.holds_eq_compare, beq_iff_eq]
  cases a with
  | bool p =>
    cases b with
    | bool q => exact others (CompareOp.holds_eq_compare.trans beq_iff_eq.symm)
    | _ => simp [compareTyped, equiv, number?, characters?]
  | integer i =>
    cases b with
    | integer j =>
      exact others (CompareOp.holds_eq_compare.trans (Int64.toInt_inj.trans beq_iff_eq.symm))
    | float y | double y => exact numbers rfl rfl
    | _ => simp [compareTyped, equiv, number?, characters?]
  | float x | double x =>
    cases b with
    | integer y | float y | double y => exact numbers rfl rfl
    | _ => simp [compareTyped, equiv, number?, characters?]
  | string s | untyped s | anyUri s =>
    cases b with
    | string t | untyped t | anyUri t => exact others (texts s t)
    | _ => simp [compareTyped, equiv, number?, characters?]
  | qname p =>
    cases b with
    | qname q =>
      refine others (Iff.trans ?_ beq_iff_eq.symm)
      by_cases h : p = q <;> simp [h, CompareOp.holds_eq]
    | _ => simp [compareTyped, equiv, number?, characters?]

/-- Equivalence does not depend on the order of the items. -/
theorem equiv_swap {a b : Item} (hnan : ¬ (a.isNaN = true ∧ b.isNaN = true))
    (h : a.equiv b = true) : b.equiv a = true := by
  have hab : compareTyped .eq .unknown a b = .ok true :=
    (compareTyped_eq_ok .unknown a b).mpr ⟨h, hnan⟩
  have hba : (compareTyped .eq .unknown b a).toOption = some true := by
    rw [← toOption_eq_some_iff.mpr hab]
    exact compareTyped_swap .eq .unknown .unknown a b
  exact ((compareTyped_eq_ok .unknown b a).mp (toOption_eq_some_iff.mp hba)).1

/-- Nothing is converted where both items are untyped or neither is. -/
theorem compare_eq_compareTyped {a b : Item} (h : a.isUntyped = b.isUntyped) (op : CompareOp)
    (span : Span) : a.compare op span b = compareTyped op span a b := by
  simp only [compare, promote, h, Bool.and_not_self, Bool.false_eq_true, if_false]

/-- Untyped text is equivalent to other untyped text, a string or a URI. -/
theorem equiv_untyped {s : String} {b : Item} (h : (Item.untyped s).equiv b = true) :
    b = .untyped s ∨ b = .string s ∨ b = .anyUri s := by
  cases b with
  | untyped t | string t | anyUri t =>
    obtain rfl : s = t := beq_iff_eq.mp h
    simp
  | _ => cases h

/-- An untyped item and a URI of one text, with white space at the ends of it. -/
def PaddedUri (a b : Item) : Prop :=
  ∃ s, Text.trim s ≠ s ∧ (a = .untyped s ∧ b = .anyUri s ∨ a = .anyUri s ∧ b = .untyped s)

theorem PaddedUri.symm {a b : Item} (h : a.PaddedUri b) : b.PaddedUri a := by
  obtain ⟨s, hs, hab⟩ := h
  exact ⟨s, hs, hab.symm.imp And.symm And.symm⟩

/-- Untyped text is equal to what it is equivalent to, but for a URI, to which it is compared
without the white space around it. -/
theorem untyped_compare_eq {s : String} {b : Item} (h : (Item.untyped s).equiv b = true)
    (span : Span) :
    (Item.untyped s).compare .eq span b = .ok true ↔ ¬ (Item.untyped s).PaddedUri b := by
  have hequal (t u : String) : (Except.ok (CompareOp.eq.holds (some (Ord.compare t u))) :
      Except EvalError Bool) = .ok true ↔ t = u := by
    rw [Except.ok.injEq, CompareOp.holds_eq_compare]
  rcases equiv_untyped h with rfl | rfl | rfl
  · exact (hequal s s).trans (by simp [PaddedUri])
  · exact (hequal s s).trans (by simp [PaddedUri])
  · exact (hequal (Text.trim s) s).trans (by simp [PaddedUri])

/-- The same with the untyped text on the right. -/
theorem compare_untyped_eq {a : Item} {s : String} (h : a.equiv (.untyped s) = true) (span : Span) :
    a.compare .eq span (.untyped s) = .ok true ↔ ¬ a.PaddedUri (.untyped s) := by
  have hswap : a.compare .eq span (.untyped s) = .ok true ↔
      (Item.untyped s).compare .eq span a = .ok true := by
    rw [← toOption_eq_some_iff, ← toOption_eq_some_iff, ← compare_swap .eq span span a]
    rfl
  have hequiv : (Item.untyped s).equiv a = true := equiv_swap (by simp [isNaN]) h
  have hpadded : a.PaddedUri (.untyped s) ↔ (Item.untyped s).PaddedUri a :=
    ⟨PaddedUri.symm, PaddedUri.symm⟩
  rw [hswap, hpadded, untyped_compare_eq hequiv]

/-- Items that are equivalent are equal, unless both are not-a-number, or one is untyped text and
the other a URI of the same text: before the comparison the first loses the white space around it,
and the second does not. Items that are equal without a conversion are equivalent. -/
theorem equiv_compare (a b : Item) (span : Span) :
    (¬ (a.isNaN = true ∧ b.isNaN = true) → a.equiv b = true →
      (a.compare .eq span b = .ok true ↔ ¬ a.PaddedUri b)) ∧
    (a.isUntyped = false → b.isUntyped = false → a.compare .eq span b = .ok true →
      a.equiv b = true) := by
  constructor
  · intro hnan h
    by_cases huntyped : a.isUntyped = b.isUntyped
    · have hpadded : ¬ a.PaddedUri b := by
        rintro ⟨s, -, ⟨rfl, rfl⟩ | ⟨rfl, rfl⟩⟩ <;> cases huntyped
      rw [compare_eq_compareTyped huntyped, compareTyped_eq_ok]
      exact iff_of_true ⟨h, hnan⟩ hpadded
    · cases a with
      | untyped s => exact untyped_compare_eq h span
      | _ =>
        cases b with
        | untyped s => exact compare_untyped_eq h span
        | _ => exact absurd rfl huntyped
  · intro ha hb h
    rw [compare_eq_compareTyped (ha.trans hb.symm)] at h
    exact ((compareTyped_eq_ok span a b).mp h).1

/-- Texts keep their white space where neither of them is a URI, and so do a string and a URI. -/
theorem equiv_compare_spaced :
    ((Item.untyped " a").compare .eq .unknown (.string " a") = .ok true ↔
        ¬ (Item.untyped " a").PaddedUri (.string " a")) ∧
      (Item.anyUri " a").equiv (.string " a") = true :=
  ⟨(equiv_compare _ _ _).1 (by decide) rfl, (equiv_compare _ _ .unknown).2 rfl rfl rfl⟩

/-- Untyped text and a URI with a blank in front are equivalent and not equal, although neither is a
number. -/
theorem equiv_unequal :
    (Item.untyped " a").equiv (.anyUri " a") = true ∧
      (Item.untyped " a").compare .eq .unknown (.anyUri " a") = .ok false ∧
      ¬ ∀ (a b : Item) (span : Span), ¬ (a.isNaN = true ∧ b.isNaN = true) → a.equiv b = true →
        a.compare .eq span b = .ok true := by
  have hunequal : (Item.untyped " a").compare .eq .unknown (.anyUri " a") = .ok false := by rfl
  refine ⟨rfl, hunequal, fun h => ?_⟩
  rw [h _ _ .unknown (by decide) rfl] at hunequal
  cases hunequal

end Item

/-! ## Exchanged sequences -/

namespace Value

variable {op : CompareOp} {u v w : Value}

theorem compareWith_eq_false {a : Item} :
    (compareWith op .unknown a v).toOption = some false ↔
      ∀ b ∈ v, (a.compare op .unknown b).toOption = some false := by
  induction v with
  | nil => simp [compareWith, Except.toOption]
  | cons b v ih =>
    rw [compareWith_cons, List.forall_mem_cons, ← ih]
    cases a.compare op .unknown b with
    | error t => simp [Except.bind, Except.toOption]
    | ok r => cases r <;> simp [Except.bind, Except.toOption]

theorem compareWith_eq_true {a : Item} (h : (compareWith op .unknown a v).toOption = some true) :
    ∃ b ∈ v, (a.compare op .unknown b).toOption = some true := by
  induction v with
  | nil => cases h
  | cons b v ih =>
    rw [compareWith_cons] at h
    cases hb : a.compare op .unknown b with
    | error t => rw [hb] at h; cases h
    | ok r =>
      cases r with
      | true => exact ⟨b, List.mem_cons_self .., by rw [hb]; rfl⟩
      | false =>
        rw [hb] at h
        obtain ⟨b', hb', h⟩ := ih h
        exact ⟨b', List.mem_cons_of_mem _ hb', h⟩

theorem compare?_cons (a : Item) :
    compare? op (a :: u) v = (compareWith op .unknown a v).toOption.bind fun r =>
      if r = true then some true else compare? op u v := by
  unfold compare?
  rw [compare_cons]
  cases compareWith op .unknown a v with
  | error t => rfl
  | ok r => cases r <;> rfl

/-- No item is related to any other, and no pair is incomparable. -/
theorem compare?_eq_false :
    compare? op u v = some false ↔
      ∀ a ∈ u, ∀ b ∈ v, (a.compare op .unknown b).toOption = some false := by
  induction u with
  | nil => simp [compare?, compare, Except.toOption]
  | cons a u ih =>
    rw [compare?_cons, List.forall_mem_cons, ← ih, ← compareWith_eq_false]
    cases (compareWith op .unknown a v).toOption with
    | none => simp
    | some r => cases r <;> simp

theorem compare?_eq_true (h : compare? op u v = some true) :
    ∃ a ∈ u, ∃ b ∈ v, (a.compare op .unknown b).toOption = some true := by
  induction u with
  | nil => cases h
  | cons a u ih =>
    rw [compare?_cons] at h
    cases hr : (compareWith op .unknown a v).toOption with
    | none => rw [hr] at h; cases h
    | some r =>
      cases r with
      | true =>
        obtain ⟨b, hb, h⟩ := compareWith_eq_true hr
        exact ⟨a, List.mem_cons_self .., b, hb, h⟩
      | false =>
        rw [hr] at h
        obtain ⟨a', ha', h⟩ := ih h
        exact ⟨a', List.mem_cons_of_mem _ ha', h⟩

/-- No item is related to any other in either order, or in neither. -/
theorem compare?_swap_eq_false :
    compare? op.swap v u = some false ↔ compare? op u v = some false := by
  simp only [compare?_eq_false, Item.compare_swap op .unknown .unknown]
  exact ⟨fun h a ha b hb => h b hb a ha, fun h b hb a ha => h a ha b hb⟩

/-- Two items compare with their operands exchanged as they do in order, failures included. Of two
sequences the answer no is the same in both orders. Where it is yes in one order, the search may
meet a pair that cannot be compared in the other order first, but it does not end with the answer
no. -/
theorem compare_exchanged (op : CompareOp) (span span' : Span) :
    (∀ a b : Item, (b.compare op.swap span' a).toOption = (a.compare op span b).toOption) ∧
    (∀ u v : Value, v.compare op.swap span' u = .ok false ↔ u.compare op span v = .ok false) ∧
    ∀ (u v : Value) (r s : Bool),
      u.compare op span v = .ok r → v.compare op.swap span' u = .ok s → r = s := by
  have hfalse (u v : Value) :
      v.compare op.swap span' u = .ok false ↔ u.compare op span v = .ok false := by
    rw [← toOption_eq_some_iff, ← toOption_eq_some_iff, compare_toOption, compare_toOption]
    exact compare?_swap_eq_false
  refine ⟨fun a b => Item.compare_swap op span span' a b, hfalse, ?_⟩
  intro u v r s hr hs
  cases r with
  | false =>
    rw [(hfalse u v).mpr hr] at hs
    exact Except.ok.inj hs
  | true =>
    cases s with
    | false =>
      rw [(hfalse u v).mp hs] at hr
      cases hr
    | true => rfl

/-- A pair that decides in either order, before one that cannot be compared. -/
theorem compare_exchanged_early :
    ∃ r s, Value.compare .lt .unknown [.string "b", .integer 1] [.untyped "c", .string "a"] = .ok r ∧
      Value.compare .gt .unknown [.untyped "c", .string "a"] [.string "b", .integer 1] = .ok s ∧
      r = s := by
  have hlt : Value.compare .lt .unknown [.string "b", .integer 1] [.untyped "c", .string "a"] =
      .ok true := by rfl
  have hgt : Value.compare .gt .unknown [.untyped "c", .string "a"] [.string "b", .integer 1] =
      .ok true := by rfl
  exact ⟨true, true, hlt, hgt, (compare_exchanged .lt .unknown .unknown).2.2 _ _ true true hlt hgt⟩

end Value
end QueryExpr
