import QueryExpr.Expr.Basic

/-!
# QueryExpr.Proofs.Tree

Induction over expressions, and what holds of every node of one.

* `Expr.induction` — one case for each kind of node; lists of parts are covered by membership.
* `Expr.part_induction` — one case for all.
* `OccursIn`       — a node stands somewhere in an expression.
* `Every`          — all nodes of an expression have a property.
* `every_deterministic` — what an expression without a mark of chance calls.
-/

namespace QueryExpr

/-- What all members of a list have is not lost with another member in the place of one. -/
theorem forall_mem_replace {α : Type} {P : α → Prop} {as bs : List α} {a b : α}
    (h : ∀ x ∈ as ++ a :: bs, P x) (hb : P a → P b) : ∀ x ∈ as ++ b :: bs, P x := by
  simp only [List.forall_mem_append, List.forall_mem_cons] at h ⊢
  exact ⟨h.1, hb h.2.1, h.2.2⟩

namespace Expr

/-- Induction over expressions. The hypothesis for a list of parts speaks of its members. -/
@[induction_eliminator] theorem induction {motive : Expr → Prop}
    (connective : ∀ c es span, (∀ e ∈ es, motive e) → motive (.connective c es span))
    (switch : ∀ e cs d span, motive e → (∀ p ∈ cs, motive p.1 ∧ motive p.2) → motive d →
      motive (.switch e cs d span))
    (typeswitch : ∀ e cs span, motive e → (∀ p ∈ cs, motive p.2) →
      motive (.typeswitch e cs span))
    (cast : ∀ e t span, motive e → motive (.cast e t span))
    (call : ∀ fn e span, motive e → motive (.call fn e span))
    (compare : ∀ op l r span, motive l → motive r → motive (.compare op l r span))
    (range : ∀ b e span, motive e → motive (.range b e span))
    (position : ∀ a b span, motive (.position a b span))
    (literal : ∀ v, motive (.literal v))
    (var : ∀ x span, motive (.var x span))
    (external : ∀ fn es tail span, (∀ e ∈ es, motive e) → motive (.external fn es tail span))
    (failing : ∀ c t span, motive (.failing c t span)) (e : Expr) : motive e := by
  have ih : ∀ d, sizeOf d < sizeOf e → motive d := fun d _ =>
    induction connective switch typeswitch cast call compare range position literal var external
      failing d
  cases e with
  | connective c es span =>
    refine connective c es span fun d h => ih d ?_
    have := List.sizeOf_lt_of_mem h
    simp; omega
  | switch e cs d span =>
    refine switch e cs d span (ih e (by simp; omega)) (fun p h => ?_) (ih d (by simp; omega))
    have := List.sizeOf_lt_of_mem h
    obtain ⟨v, r⟩ := p
    simp only [Prod.mk.sizeOf_spec] at this
    exact ⟨ih v (by simp; omega), ih r (by simp; omega)⟩
  | typeswitch e cs span =>
    refine typeswitch e cs span (ih e (by simp; omega)) fun p h => ih p.2 ?_
    have := List.sizeOf_lt_of_mem h
    obtain ⟨head, r⟩ := p
    simp only [Prod.mk.sizeOf_spec] at this
    simp; omega
  | cast e t span => exact cast e t span (ih e (by simp; omega))
  | call fn e span => exact call fn e span (ih e (by simp; omega))
  | compare op l r span =>
    exact compare op l r span (ih l (by simp; omega)) (ih r (by simp; omega))
  | range b e span => exact range b e span (ih e (by simp; omega))
  | position a b span => exact position a b span
  | literal v => exact literal v
  | var x span => exact var x span
  | external fn es tail span =>
    refine external fn es tail span fun d h => ih d ?_
    have := List.sizeOf_lt_of_mem h
    simp; omega
  | failing c t span => exact failing c t span
termination_by sizeOf e

/-! ## Parts -/

section
variable {P : Expr → Prop} {e d : Expr} {span : Span}

theorem forall_children_switch {cs : List (Expr × Expr)} :
    (∀ x ∈ (switch e cs d span).children, P x) ↔ P e ∧ (∀ p ∈ cs, P p.1 ∧ P p.2) ∧ P d := by
  simp only [children, List.forall_mem_append, List.forall_mem_cons, List.forall_mem_flatMap,
    List.not_mem_nil, false_implies, implies_true, and_true, and_assoc]

theorem forall_children_typeswitch {cs : List (CaseHead × Expr)} :
    (∀ x ∈ (typeswitch e cs span).children, P x) ↔ P e ∧ ∀ p ∈ cs, P p.2 := by
  simp only [children, List.forall_mem_cons, List.forall_mem_map]

end

/-- Induction over expressions, with all parts of a node alike. -/
theorem part_induction {motive : Expr → Prop}
    (node : ∀ e, (∀ d ∈ e.children, motive d) → motive e) (e : Expr) : motive e := by
  induction e with
  | connective c es span ih => exact node _ ih
  | switch e cs d span ihe ihcs ihd => exact node _ (forall_children_switch.mpr ⟨ihe, ihcs, ihd⟩)
  | typeswitch e cs span ihe ihcs => exact node _ (forall_children_typeswitch.mpr ⟨ihe, ihcs⟩)
  | cast e t span ih => exact node _ (by simpa [children] using ih)
  | call fn e span ih => exact node _ (by simpa [children] using ih)
  | compare op l r span ihl ihr => exact node _ (by simpa [children] using ⟨ihl, ihr⟩)
  | range b e span ih => exact node _ (by simpa [children] using ih)
  | external fn es tail span ih => exact node _ ih
  | _ => exact node _ (by simp [children])

/-! ## Nodes of an expression -/

/-- A node stands somewhere in an expression. -/
inductive OccursIn : Expr → Expr → Prop where
  | self (e : Expr) : OccursIn e e
  | child {n d e : Expr} : d ∈ e.children → OccursIn n d → OccursIn n e

/-- Every node of an expression has a property. -/
def Every (q : Expr → Prop) (e : Expr) : Prop := ∀ n, n.OccursIn e → q n

theorem OccursIn.trans {n d e : Expr} (hnd : n.OccursIn d) (hde : d.OccursIn e) :
    n.OccursIn e := by
  induction hde with
  | self => exact hnd
  | child hc _ ih => exact .child hc ih

section
variable {q : Expr → Prop}

theorem Every.part {d e : Expr} (h : e.Every q) (hd : d.OccursIn e) : d.Every q :=
  fun n hn => h n (hn.trans hd)

theorem every_iff {e : Expr} : e.Every q ↔ q e ∧ ∀ d ∈ e.children, d.Every q := by
  constructor
  · intro h
    exact ⟨h e (.self e), fun d hd n hn => h n (.child hd hn)⟩
  · rintro ⟨he, hd⟩ n hn
    cases hn with
    | self => exact he
    | child hc hn => exact hd _ hc n hn

theorem Every.node {e : Expr} (h : e.Every q) : q e := (every_iff.mp h).1

theorem Every.imp {p : Expr → Prop} (hpq : ∀ n, p n → q n) {e : Expr} (h : e.Every p) :
    e.Every q := fun n hn => hpq n (h n hn)

theorem Every.and {p : Expr → Prop} {e : Expr} (hp : e.Every p) (hq : e.Every q) :
    e.Every fun n => p n ∧ q n := fun n hn => ⟨hp n hn, hq n hn⟩

attribute [local simp] children

@[simp] theorem every_connective {c : Connective} {es : List Expr} {span : Span} :
    (connective c es span).Every q ↔ q (.connective c es span) ∧ ∀ e ∈ es, e.Every q :=
  every_iff

@[simp] theorem every_switch {e d : Expr} {cs : List (Expr × Expr)} {span : Span} :
    (switch e cs d span).Every q ↔
      q (.switch e cs d span) ∧ e.Every q ∧ (∀ p ∈ cs, p.1.Every q ∧ p.2.Every q) ∧ d.Every q := by
  rw [every_iff, forall_children_switch]

@[simp] theorem every_typeswitch {e : Expr} {cs : List (CaseHead × Expr)} {span : Span} :
    (typeswitch e cs span).Every q ↔
      q (.typeswitch e cs span) ∧ e.Every q ∧ ∀ p ∈ cs, p.2.Every q := by
  rw [every_iff, forall_children_typeswitch]

@[simp] theorem every_cast {e : Expr} {t : SeqType} {span : Span} :
    (cast e t span).Every q ↔ q (.cast e t span) ∧ e.Every q := by
  rw [every_iff]; simp

@[simp] theorem every_call {fn : Builtin} {e : Expr} {span : Span} :
    (call fn e span).Every q ↔ q (.call fn e span) ∧ e.Every q := by
  rw [every_iff]; simp

@[simp] theorem every_compare {op : CompareOp} {l r : Expr} {span : Span} :
    (compare op l r span).Every q ↔ q (.compare op l r span) ∧ l.Every q ∧ r.Every q := by
  rw [every_iff]; simp

@[simp] theorem every_range {b : Bounds} {e : Expr} {span : Span} :
    (range b e span).Every q ↔ q (.range b e span) ∧ e.Every q := by
  rw [every_iff]; simp

@[simp] theorem every_external {fn : ExternalFn} {es : List Expr} {tail : Bool} {span : Span} :
    (external fn es tail span).Every q ↔
      q (.external fn es tail span) ∧ ∀ e ∈ es, e.Every q :=
  every_iff

@[simp] theorem every_position {a b : Int64} {span : Span} :
    (position a b span).Every q ↔ q (.position a b span) := by
  rw [every_iff]; simp

@[simp] theorem every_literal {v : Value} : (literal v).Every q ↔ q (.literal v) := by
  rw [every_iff]; simp

@[simp] theorem every_var {x : Var} {span : Span} :
    (var x span).Every q ↔ q (.var x span) := by
  rw [every_iff]; simp

@[simp] theorem every_failing {c : CompileError} {t : SeqType} {span : Span} :
    (failing c t span).Every q ↔ q (.failing c t span) := by
  rw [every_iff]; simp

end

end Expr

/-! ## Chance -/

theorem anyRandom_eq_false {es : List Expr} :
    anyRandom es = false ↔ ∀ e ∈ es, e.isRandom = false := by
  induction es with
  | nil => simp [anyRandom]
  | cons e es ih => simp [anyRandom, ih]

theorem anyCaseRandom_eq_false {cs : List (Expr × Expr)} :
    anyCaseRandom cs = false ↔ ∀ p ∈ cs, p.1.isRandom = false ∧ p.2.isRandom = false := by
  induction cs with
  | nil => simp [anyCaseRandom]
  | cons p cs ih => simp only [anyCaseRandom, Bool.or_eq_false_iff, ih, List.forall_mem_cons]

theorem anyTypeCaseRandom_eq_false {cs : List (CaseHead × Expr)} :
    anyTypeCaseRandom cs = false ↔ ∀ p ∈ cs, p.2.isRandom = false := by
  induction cs with
  | nil => simp [anyTypeCaseRandom]
  | cons p cs ih => simp only [anyTypeCaseRandom, Bool.or_eq_false_iff, ih, List.forall_mem_cons]

namespace Expr

/-- A node is a matter of chance if one of its parts is. -/
theorem isRandom_of_child {d e : Expr} (hd : d ∈ e.children) (he : e.isRandom = false) :
    d.isRandom = false := by
  suffices h : ∀ d ∈ e.children, d.isRandom = false from h d hd
  cases e with
  | connective k es span => exact anyRandom_eq_false.mp he
  | switch e cs o span =>
    simpa [forall_children_switch, isRandom, anyCaseRandom_eq_false, and_assoc] using he
  | typeswitch e cs span =>
    simpa [forall_children_typeswitch, isRandom, anyTypeCaseRandom_eq_false] using he
  | external fn es tail span =>
    simp only [isRandom, Bool.or_eq_false_iff, anyRandom_eq_false] at he
    exact he.2
  | compare op l r span => simpa [children, isRandom] using he
  | cast e t span => simpa [children, isRandom] using he
  | call fn e span => simpa [children, isRandom] using he
  | range b e span => simpa [children, isRandom] using he
  | _ => simp [children]

/-- A call of a function is one of a deterministic function. -/
def IsDeterministic : Expr → Prop
  | .external fn _ _ _ => fn.deterministic = true
  | _ => True

/-- An expression without a mark of chance calls deterministic functions only. -/
theorem every_deterministic {e : Expr} (he : e.isRandom = false) : e.Every IsDeterministic := by
  intro n hn
  induction hn with
  | self =>
    cases n with
    | external fn es tail span =>
      simp only [isRandom, Bool.or_eq_false_iff, Bool.not_eq_false'] at he
      exact he.1
    | _ => trivial
  | child hd _ ih => exact ih (isRandom_of_child hd he)

end Expr
end QueryExpr
