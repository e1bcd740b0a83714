import QueryExpr.Compile.Tree
import QueryExpr.Proofs.Tree

/-!
# QueryExpr.Proofs.Normal

The shape of compiled expressions.

* `Connective.Normal` — the normal form of the operands of a conjunction or a disjunction.
* `Expr.AtRest`       — no rule applies to a node, and the checks on its own shape are passed.
* `Expr.Settled`      — all nodes of an expression are at rest.
-/

namespace QueryExpr

/-- The normal form of the operands of a connective. -/
structure Connective.Normal (c : Connective) (es : List Expr) : Prop where
  /-- There are at least two operands. -/
  several : 2 ≤ es.length
  /-- No operand is a connective of the same kind or a call of `boolean`. -/
  flat : ∀ e ∈ es, e.kind ≠ c.kind ∧ e.kind ≠ .boolean
  /-- A literal is the last operand, not the first, and decides. -/
  literal_last : ∀ ds v fs, es = ds ++ .literal v :: fs →
    ds ≠ [] ∧ fs = [] ∧ Expr.literal v = .ofBool c.absorbing
  /-- No operand that always yields the same is equal to one before it. -/
  distinct : es.Pairwise fun d e => e.isRandom = false → e.same d = false
  /-- No neighbours can be merged. -/
  unmergeable : ∀ ds d e fs, es = ds ++ d :: e :: fs → d.merge? c e = none
  /-- Some operand is no negation. -/
  mixed : ∃ e ∈ es, e.kind ≠ .negation

namespace Expr

/-- No rule applies to a node, and the node passes the checks on its own shape. -/
def AtRest : Expr → Prop
  | .connective c es _ => c.Normal es
  | .switch e cs _ span => ∀ v, e = .literal v →
    ∃ i, v.single? span = .ok i ∧ chooseCase i span cs = .ok .unknown
  | .typeswitch e cs _ => endsInDefault cs = true ∧ e.literal? = none ∧
    ((cs.all fun c => c.2.isVacuous) && !e.isRandom) = false
  | .cast e t _ => t.isCastTarget = true ∧ e.literal? = none ∧ castIsVoid e.type t = false
  | .call .boolean e _ => e.literal? = none ∧ e.kind ≠ .boolean ∧ e.type ≠ .booleanOne
  | .call .not e _ => e.literal? = none ∧ e.kind ≠ .boolean ∧ e.kind ≠ .negation
  | .compare _ l r _ => l.literal? = none ∨ r.literal? = none
  | .range b e _ => b.isEmpty = false ∧ e.literal? = none
  | .position a b _ => positionConstant? a b = none
  | .literal _ => True
  | .var _ _ => True
  | .external _ _ _ _ => True
  | .failing _ _ _ => True

/-- Every node of an expression is at rest. -/
def Settled (e : Expr) : Prop := e.Every AtRest

theorem settled_literal (v : Value) : (literal v).Settled := every_literal.mpr trivial

theorem settled_ofBool (b : Bool) : (ofBool b).Settled := settled_literal _

theorem settled_failing (c : CompileError) (t : SeqType) (span : Span) :
    (failing c t span).Settled := every_failing.mpr trivial

theorem settled_var (x : Var) (span : Span) : (var x span).Settled := every_var.mpr trivial

/-! ## Kinds -/

theorem kind_eq_connective {c : Connective} {e : Expr} :
    e.kind = c.kind ↔ ∃ es span, e = .connective c es span := by
  constructor
  · intro h
    cases e with
    | connective c' es span =>
      have : c' = c := by
        cases c <;> cases c' <;> simp [kind, Connective.kind] at h ⊢
      exact ⟨es, span, by rw [this]⟩
    | call fn e span => cases fn <;> cases c <;> simp [kind, Connective.kind, Builtin.kind] at h
    | _ => cases c <;> simp [kind, Connective.kind] at h
  · rintro ⟨es, span, rfl⟩; rfl

theorem kind_eq_call {fn : Builtin} {e : Expr} :
    e.kind = fn.kind ↔ ∃ arg span, e = .call fn arg span := by
  constructor
  · intro h
    cases e with
    | connective c es span =>
      cases fn <;> cases c <;> simp [kind, Connective.kind, Builtin.kind] at h
    | call fn' arg span =>
      have : fn' = fn := by cases fn <;> cases fn' <;> simp [kind, Builtin.kind] at h ⊢
      exact ⟨arg, span, by rw [this]⟩
    | _ => cases fn <;> simp [kind, Builtin.kind] at h
  · rintro ⟨arg, span, rfl⟩; rfl

theorem kind_eq_negation {e : Expr} : e.kind = .negation ↔ ∃ arg span, e = .call .not arg span :=
  @kind_eq_call .not e

theorem literal?_eq_some {e : Expr} {v : Value} : e.literal? = some v ↔ e = .literal v := by
  cases e <;> simp [literal?]

theorem literal?_eq_none {e : Expr} : e.literal? = none ↔ ∀ v, e ≠ .literal v := by
  cases e <;> simp [literal?]

end Expr
end QueryExpr
