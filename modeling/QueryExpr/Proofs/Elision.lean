import QueryExpr.Proofs.Conversion
import QueryExpr.Proofs.NormalForm
import QueryExpr.Proofs.Throughout

/-!
# QueryExpr.Proofs.Elision

Casts that are left out because the operand is of the type already.

* `Item.renewed_eq_self`      — which items a cast to their own type leaves alone.
* `Value.cast_of_type`        — such a cast, on values of the type.
* `Value.cast?_elided`        — it does nothing to unscored values, unless they are URIs.
* `Expr.eval_cast_void`       — a cast that may be left out renews the items of its operand.
* `optimizeCast_invisible_iff` — when nobody can tell that a cast was left out.

The static type of an operand tells of the types of items, and so neither of the score of a boolean
nor of the white space around a URI. A cast takes both away.
-/

namespace QueryExpr

/-! ## Items and values -/

/-- A URI has no white space around it. -/
def Item.Trimmed : Item → Prop
  | .anyUri s => Text.trim s = s
  | _ => True

theorem Item.renewed_eq_self {i : Item} : i.renewed = i ↔ i.Unscored ∧ i.Trimmed := by
  cases i with
  | bool b =>
    constructor
    · intro h
      injection h with hb
      exact ⟨congrArg Truth.score hb.symm, trivial⟩
    · rintro ⟨hb, -⟩
      rw [renewed, ← Truth.eq_plain hb]
  | anyUri s =>
    constructor
    · intro h
      injection h with hs
      exact ⟨trivial, hs⟩
    · rintro ⟨-, hs⟩
      exact congrArg Item.anyUri hs
  | _ => exact ⟨fun _ => ⟨trivial, trivial⟩, fun _ => rfl⟩

theorem Value.renewed_eq_self {v : Value} :
    v.map Item.renewed = v ↔ ∀ i ∈ v, i.Unscored ∧ i.Trimmed := by
  rw [← List.forall₂_eq_eq_eq, List.forall₂_map_left_iff, List.forall₂_same]
  exact forall₂_congr fun i _ => Item.renewed_eq_self

theorem Value.renewed_of_cast {v w : Value} {t : SeqType} {span : Span}
    (h : v.cast t span = .ok w) : w.map Item.renewed = w := by
  rcases Value.cast_eq_ok h with ⟨-, rfl, -⟩ | ⟨i, j, -, rfl, hj⟩
  · rfl
  · rw [List.map_singleton, Item.renewed_of_cast hj]

/-- The types whose casts may be left out have no other instances than their own. -/
theorem Atom.eq_of_elidable {a b : Atom} (hb : b.isElidable = true) (h : a.instanceOf b = true) :
    a = b := by
  have hall : ∀ b ∈ all, b.isElidable = true → ∀ a ∈ all, a.instanceOf b = true → a = b := by
    decide +kernel
  exact hall b (mem_all b) hb a (mem_all a) h

/-- A value of the type that is asked for has its items renewed. -/
theorem Value.cast_of_type {t : SeqType} (ht : t.isCastTarget = true)
    (he : t.atom.isElidable = true) {v : Value} (hv : t.admits v = true) (span : Span) :
    v.cast t span = .ok (v.map Item.renewed) := by
  obtain ⟨hlength, hitems⟩ := SeqType.admits_iff.mp hv
  obtain ⟨hmin, hmax⟩ := Occurrence.admits_iff.mp hlength
  match v with
  | [] =>
    have hzero : t.occurs.min = 0 := Nat.le_zero.mp hmin
    simp only [Value.cast, Value.single?, hzero, if_true, List.map_nil]
  | [i] =>
    have htype : i.type = t.atom := Atom.eq_of_elidable he (hitems i (List.mem_singleton_self i))
    simp only [Value.cast, Value.single?, ← htype, Item.cast_own_type, List.map_cons, List.map_nil]
  | _ :: _ :: _ =>
    have htwo : t.occurs.max = some 1 := by
      rcases SeqType.castTarget_occurs ht with h | h <;> rw [h] <;> rfl
    have := hmax 1 htwo
    simp only [List.length_cons] at this
    omega

theorem castIsVoid_elidable {s t : SeqType} (h : castIsVoid s t = true) :
    t.atom.isElidable = true := by
  simp only [castIsVoid, Bool.and_eq_true] at h
  exact h.1

/-- An unscored value is what a cast makes of it that may be left out, unless white space is. -/
theorem Value.cast?_elided {s t : SeqType} (ht : t.isCastTarget = true) (hu : t.atom ≠ .anyUri)
    (hvoid : castIsVoid s t = true) {v : Value} (hs : s.admits v = true) (hv : v.Unscored) :
    v.cast? t = some v := by
  have helidable := castIsVoid_elidable hvoid
  have hadm := (SeqType.castIsVoid_within ht hvoid).admits hs
  have htrimmed : ∀ i ∈ v, i.Trimmed := by
    intro i hi
    have htype := Atom.eq_of_elidable helidable ((SeqType.admits_iff.mp hadm).2 i hi)
    cases i with
    | anyUri s => exact absurd htype.symm hu
    | _ => trivial
  have hself := Value.renewed_eq_self.mpr fun i hi => ⟨hv i hi, htrimmed i hi⟩
  rw [Value.cast?, Value.cast_of_type ht helidable hadm, hself]
  rfl

/-! ## Expressions -/

section
variable {σ : Type} {h : Host σ} {c : Context}

/-- A cast that may be left out fails where its operand fails, and renews what it yields. -/
theorem Expr.eval_cast_void {e : Expr} {t : SeqType} (ht : t.isCastTarget = true)
    (hvoid : castIsVoid e.type t = true) (hs : e.Every CastsRight)
    (he : e.Throughout h (Conforming h) c) (span : Span) (s : σ) :
    (Expr.cast e t span).eval h c s =
      ((e.eval h c s).1.map (List.map Item.renewed), (e.eval h c s).2) := by
  rw [Expr.eval]
  rcases hv : e.eval h c s with ⟨_ | v, s'⟩
  · rfl
  · have helidable := castIsVoid_elidable hvoid
    have hadmits : t.admits v = true :=
      (SeqType.castIsVoid_within ht hvoid).admits (Expr.eval_conforms he hs hv)
    simp only [Value.cast_of_type ht helidable hadmits, Except.map]

/-- A cast of a compiled operand and what is left of it have one result and leave one state, exactly
if, where the operand is left, it yields neither a boolean with a score nor a URI with white space
around it. -/
theorem optimizeCast_invisible_iff {checks : Checks} {x e d : Expr} {t : SeqType} {span : Span}
    (hcomp : (x.compile checks).value = .ok e) (ht : t.isCastTarget = true)
    (he : e.Throughout h (Expr.Conforming h) c) (hd : (optimizeCast e t span).value = .ok d)
    (s : σ) :
    d.eval h c s = (Expr.cast e t span).eval h c s ↔
      (d = e → ∀ v s', e.eval h c s = (.ok v, s') → ∀ i ∈ v, i.Unscored ∧ i.Trimmed) := by
  rcases optimizeCast_eq_ok hd with ⟨v, w, rfl, hw, rfl⟩ | ⟨hvoid, rfl⟩ | rfl
  case inl =>
    have hsame : (Expr.literal w).eval h c s = (Expr.cast (.literal v) t span).eval h c s := by
      simp only [Expr.eval, hw]
    refine iff_of_true hsame ?_
    -- A literal that is its own conversion is the outcome of one.
    intro hself u s' hu
    cases hself
    cases hu
    exact Value.renewed_eq_self.mp (Value.renewed_of_cast hw)
  case inr.inl =>
    have hs : d.Every Expr.CastsRight := (Expr.compile_settled hcomp).castsRight
    rw [Expr.eval_cast_void ht hvoid hs he]
    rcases hv : d.eval h c s with ⟨_ | v, s'⟩
    · refine iff_of_true rfl ?_
      intro _ u s'' hu
      cases hu
    · constructor
      · intro heq _ u s'' hu
        cases hu
        injection heq with hvalue
        injection hvalue with hkept
        exact Value.renewed_eq_self.mp hkept.symm
      · intro hkept
        have hrenewed : v.map Item.renewed = v := Value.renewed_eq_self.mpr (hkept rfl v s' rfl)
        simp only [Except.map, hrenewed]
  case inr.inr =>
    refine iff_of_true rfl ?_
    intro hself
    have hsize := congrArg Expr.size hself
    rw [Expr.size] at hsize
    omega

end

/-! ## Calls whose casts are left out -/

/-- A call, without arguments, of a function of a type. -/
def callOf (t : SeqType) : Expr := .external ⟨0, "found", t, true⟩ [] false .unknown

theorem callOf_conforming {t : SeqType} {v : Value} (hv : t.admits v = true) (c : Context) :
    (callOf t).Throughout (Library.host fun _ _ => some v)
      (Expr.Conforming (Library.host fun _ _ => some v)) c := by
  refine .external ?_ (by simp)
  intro vs info s w s' hw
  cases hw
  exact hv

/-- A function that yields a plain boolean. -/
theorem optimizeCast_invisible_iff_plain :
    let h := Library.host fun _ _ => some (.ofBool true)
    let e := callOf .booleanOne
    e.eval h (.empty true) () = (Expr.cast e .booleanOne .unknown).eval h (.empty true) () ↔
      (e = e → ∀ v s', e.eval h (.empty true) () = (.ok v, s') →
        ∀ i ∈ v, i.Unscored ∧ i.Trimmed) :=
  optimizeCast_invisible_iff
    (show ((callOf .booleanOne).compile fun _ _ _ => .ok ()).value = _ from rfl)
    (by decide) (callOf_conforming (by decide) _) rfl ()

/-- A call of type `t` is compiled and yields `v`, of this type. The cast to `t` makes `w` of it,
and is left out nevertheless. -/
structure ElisionHides (t : SeqType) (v w : Value) : Prop where
  compiled : ((callOf t).compile fun _ _ _ => .ok ()).value = .ok (callOf t)
  conforming : (callOf t).Throughout (Library.host fun _ _ => some v)
    (Expr.Conforming (Library.host fun _ _ => some v)) (.empty true)
  elided : (optimizeCast (callOf t) t .unknown).value = .ok (callOf t)
  operand : (callOf t).eval (Library.host fun _ _ => some v) (.empty true) () = (.ok v, ())
  cast : (Expr.cast (callOf t) t .unknown).eval (Library.host fun _ _ => some v)
    (.empty true) () = (.ok w, ())
  differs : v ≠ w

/-- The score of a boolean and the white space around a URI outlast a cast that is left out. -/
theorem optimizeCast_visible :
    ElisionHides .booleanOne (.ofTruth (.scored half)) (.ofBool true) ∧
      ElisionHides (.one .anyUri) [.anyUri " a "] [.anyUri "a"] := by
  refine ⟨⟨rfl, callOf_conforming (by decide) _, rfl, rfl, rfl, ?_⟩,
    ⟨rfl, callOf_conforming (by decide) _, rfl, rfl, rfl, by decide⟩⟩
  intro heq
  injection heq with hitem
  injection hitem with htruth
  have hzero : half.isZero = true := congrArg (fun b => b.score.isZero) htruth
  exact absurd hzero (by decide +kernel)

end QueryExpr
