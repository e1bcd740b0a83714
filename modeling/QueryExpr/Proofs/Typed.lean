import QueryExpr.Proofs.Meaning
import QueryExpr.Proofs.Narrowing

/-!
# QueryExpr.Proofs.Typed

Typed expressions and contexts: what they yield is unscored and an instance of its static type.

* `Vocabulary.keeping`  — no case binds a certain variable.
* `Vocabulary.unshadowed` — no case binds it for a result that refers to it.
* `Vocabulary.typed`    — unscored values, declared types, castable targets, and no variable bound
  again where it is bound. Numbers, defaults and the calls that are accepted do not matter.
* `Context.Typed`       — the bound values are unscored and of the declared types.
* `Expr.value?_typed`   — so is what a typed expression yields.
-/

namespace QueryExpr

/-! ## Vocabularies -/

/-- Expressions in which no case binds a variable. -/
def Vocabulary.keeping (x : Var) : Vocabulary where
  var _ := True
  fn _ := True
  cases cs := ∀ p ∈ cs, ∀ y, p.1.var = some y → ¬ y.same x = true
  left _ _ := True
  target _ := True
  value _ := True
  known _ _ := True
  parked _ := True

/-- Expressions in which no case binds a variable for a result that refers to it. -/
def Vocabulary.unshadowed (x : Var) : Vocabulary where
  var _ := True
  fn _ := True
  cases cs := ∀ p ∈ cs, ∀ y, p.1.var = some y → y.same x = true → p.2.Avoids x
  left _ _ := True
  target _ := True
  value _ := True
  known _ _ := True
  parked _ := True

/-- The variable of a case, if it has one, is as declared, its type admits what the case admits,
and the result of the case does not bind it again. -/
def Declarations.Scopes (D : Declarations) (p : CaseHead × Expr) : Prop :=
  ∀ x, p.1.var = some x → x.type = D x.id ∧
    (∀ t v, x.type = some t → p.1.admits v = true → t.admits v = true) ∧ p.2.Over (.keeping x)

/-- The results of a function are unscored and of its type. -/
def ExternalFn.IsTyped (fn : ExternalFn) (L : Library) : Prop :=
  ∀ vs v, L fn.name vs = some v → fn.type.admits v = true ∧ v.Unscored

/-- Expressions of unscored values and declared types. -/
def Vocabulary.typed (L : Library) (D : Declarations) : Vocabulary where
  var x := x.type = D x.id
  fn f := f.IsTyped L
  cases cs := ∀ p ∈ cs, D.Scopes p
  left _ _ := True
  target t := t.isCastTarget = true
  value := Value.Unscored
  known x v := D.Binds x v ∧ v.Unscored
  parked _ := True

section
variable {checks : Checks} {L : Library} {D : Declarations}

theorem Vocabulary.keeping_closed (x : Var) : (Vocabulary.keeping x).Closed checks where
  empty := trivial
  ofBool _ := trivial
  truth _ _ := trivial
  append _ _ := trivial
  cast _ _ _ := trivial
  parked _ := trivial
  known _ := trivial
  binds _ _ _ _ _ := trivial
  left _ _ _ _ := trivial
  case _ _ _ hcs := forall_mem_replace hcs id

/-- Rewriting binds no variable. -/
theorem Rewrites.keeps {K : Known} {e e' : Expr} {x : Var} (h : Rewrites checks K e (.ok e'))
    (he : e.Over (.keeping x)) : e'.Over (.keeping x) :=
  h.over (Vocabulary.keeping_closed x) (fun _ _ => trivial) he e' rfl

theorem Vocabulary.unshadowed_closed (x : Var) :
    (Vocabulary.unshadowed x).Closed checks where
  empty := trivial
  ofBool _ := trivial
  truth _ _ := trivial
  append _ _ := trivial
  cast _ _ _ := trivial
  parked _ := trivial
  known _ := trivial
  binds _ _ _ _ _ := trivial
  left _ _ _ _ := trivial
  case _ hr _ hcs := forall_mem_replace hcs fun h y hy hs => hr.avoids (h y hy hs)

theorem Rewrites.unshadowed {K : Known} {e e' : Expr} {x : Var}
    (h : Rewrites checks K e (.ok e')) (he : e.Over (.unshadowed x)) : e'.Over (.unshadowed x) :=
  h.over (Vocabulary.unshadowed_closed x) (fun _ _ => trivial) he e' rfl

theorem Expr.Over.unshadowed {x : Var} {e : Expr} (he : e.Over (.keeping x)) :
    e.Over (.unshadowed x) := by
  refine he.imp fun n hn => ?_
  cases n with
  | typeswitch o cs span => exact fun p hp y hy hs => absurd hs (hn p hp y hy)
  | _ => exact hn

theorem Declarations.Scopes.replace {K : Known} {head : CaseHead} {r r' : Expr}
    (hr : Rewrites checks K r (.ok r')) (h : D.Scopes (head, r)) : D.Scopes (head, r') := by
  intro x hx
  obtain ⟨hd, hadm, hkeep⟩ := h x hx
  exact ⟨hd, hadm, hr.keeps hkeep⟩

theorem Vocabulary.typed_closed : (Vocabulary.typed L D).Closed checks where
  empty := Value.plain_nil.unscored
  ofBool := Value.unscored_ofBool
  truth hv hb := by
    rw [hv.ebv hb]
    exact Value.unscored_ofBool _
  append hv hw := List.forall_mem_append.mpr ⟨hv, hw⟩
  cast _ _ hw := Value.cast_unscored hw
  parked _ := trivial
  known h := h.2
  binds hcs hp hx hadm hv := by
    obtain ⟨hd, hc, -⟩ := hcs _ hp _ hx
    exact ⟨⟨hd, fun t ht => hc t _ ht hadm⟩, hv⟩
  left _ _ _ _ := trivial
  case _ hr _ hcs := forall_mem_replace hcs (·.replace hr)

end

/-! ## Contexts -/

/-- The bound values are unscored and of the declared types. -/
structure Context.Typed (D : Declarations) (c : Context) : Prop where
  conforms : c.Conforms D
  unscored : c.Only Value.Unscored

section
variable {L : Library} {D : Declarations} {c : Context}

/-- A host that has the functions of a library. -/
def Library.host (L : Library) : Host Unit where
  poll s := (false, s)
  invoke fn vs _ s :=
    match L fn.name vs with
    | none => (.error .cancelled, s)
    | some v => (.ok v, s)

theorem Library.host_steady (L : Library) : L.host.Steady L where
  poll _ := rfl
  invoke fn vs info s := by
    simp only [host]
    cases L fn.name vs <;> rfl

theorem Vocabulary.typed_sound : (Vocabulary.typed L D).Sound D L.host where
  var := id
  fn {f vs info s w s'} hf hw := by
    have hL := L.host_steady.invoke f vs info s
    rw [hw] at hL
    exact (hf vs w hL.symm).1
  binds {cs p x w t} hcs hp hx hadm ht := by
    obtain ⟨hd, hb, -⟩ := hcs p hp x hx
    exact hb t w (hd.trans ht) hadm
  target := id

theorem Vocabulary.typed_unscored : (Vocabulary.typed L D).YieldsOnly L Value.Unscored where
  value := id
  fn hf hv := (hf _ _ hv).2
  cast _ hw := Value.cast_unscored (toOption_eq_some_iff.mp hw)
  ofBool := Value.unscored_ofBool

/-- What a typed expression yields is an instance of its static type, and unscored. -/
theorem Expr.value?_typed {e : Expr} (he : e.Over (.typed L D)) (hc : c.Typed D) {v : Value}
    (hv : e.value? L c = some v) : e.type.admits v = true ∧ v.Unscored := by
  refine ⟨?_, value?_only Vocabulary.typed_unscored he hc.unscored hv⟩
  have heval := Expr.eval_unscored L.host_steady Vocabulary.typed_unscored he hc.unscored ()
  rw [hv] at heval
  rcases outcome_cases heval with ⟨t, s, _, ho⟩ | ⟨w, s, hw, ho⟩
  · cases ho
  · cases ho
    exact Expr.eval_admits Vocabulary.typed_sound he hc.conforms hw

/-- The values bound for the result of a case are unscored and of the declared types, too. -/
theorem Context.Typed.inCase {e : Expr} {cs : List (CaseHead × Expr)} {span : Span}
    (he : (Expr.typeswitch e cs span).Over (.typed L D)) (hc : c.Typed D) {v : Value}
    (hv : e.value? L c = some v) {p : CaseHead × Expr} (hp : p ∈ cs)
    (hadm : p.1.admits v = true) : (p.1.bind v c).Typed D := by
  obtain ⟨hcs, he, -⟩ := Expr.every_typeswitch.mp he
  refine ⟨?_, hc.unscored.bindCase (Expr.value?_typed he hc hv).2 p.1⟩
  unfold CaseHead.bind
  split
  · exact hc.conforms
  · rename_i x hx
    obtain ⟨hd, hb, -⟩ := hcs p hp x hx
    exact hc.conforms.bind fun t ht => hb t v (hd.trans ht) hadm

end

end QueryExpr
