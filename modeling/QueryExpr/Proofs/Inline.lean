import QueryExpr.Proofs.Depth
import QueryExpr.Proofs.Revising
import QueryExpr.Proofs.Rounds

/-!
# QueryExpr.Proofs.Inline

Substitution as rewriting. A value that is substituted for a variable is a known value, and a node
that is optimised again goes through the same rules as before.

* `Substituted` — what a substitution in an expression leads to.
* `Works`       — a substitution that is right up to a depth of typeswitches.
* `inlineWith_substituted`, `substitute_works` — all substitutions of the compiler are.
-/

namespace QueryExpr

/-- What is left of an expression when a value takes the place of a variable. -/
structure Revision (checks : Checks) (K : Known) (x : Var) (v : Value) (e : Expr)
    (r : Revised Expr) : Prop where
  rewrites : Rewrites checks ((x, v) :: K) e (.ok r.value)
  settled : r.value.Settled
  avoids : r.value.Avoids x
  same : r.changed = false → r.value = e

/-- What a substitution in an expression leads to. -/
structure Substituted (checks : Checks) (K : Known) (x : Var) (v : Value) (e : Expr)
    (r : Except CompileError (Revised Expr)) : Prop where
  failed : ∀ t, r = .error t → Rewrites checks ((x, v) :: K) e (.error t)
  revision : ∀ r', r = .ok r' → Revision checks K x v e r'

/-- A substitution is right for settled expressions with less than so many typeswitches one within
the other. -/
def Works (checks : Checks) (depth : Nat) (sub : Substitution) : Prop :=
  ∀ K x v e, e.Settled → e.dispatchDepth < depth → Substituted checks K x v e (sub x v e).value

section
variable {checks : Checks} {K : Known} {x : Var} {v : Value}

theorem Substituted.error {e : Expr} {t : CompileError}
    (h : Rewrites checks ((x, v) :: K) e (.error t)) :
    Substituted checks K x v e (.error t) where
  failed t' ht := by cases ht; exact h
  revision r hr := by cases hr

theorem Substituted.ok {e : Expr} {r : Revised Expr} (h : Revision checks K x v e r) :
    Substituted checks K x v e (.ok r) where
  failed t ht := by cases ht
  revision r' hr := by cases hr; exact h

theorem Substituted.revisedAs {e : Expr} {r : Except CompileError (Revised Expr)}
    (h : Substituted checks K x v e r) : Revision checks K x v e (revisedAs e r) := by
  cases r with
  | ok r => exact h.revision r rfl
  | error t =>
    exact ⟨.park (h.failed t rfl), Expr.settled_failing t e.type e.span,
      Expr.every_failing.mpr id, fun hc => by cases hc⟩

theorem Substituted.inlined {sub : Substitution} {w e : Expr}
    (h : Substituted checks K x v e (inlineWith sub x w e).value) :
    Revision checks K x v e (inlined sub x w e) :=
  h.revisedAs

/-! ## Typeswitches -/

theorem endsInDefault_find? {cs : List (CaseHead × Expr)} (h : endsInDefault cs = true)
    (v : Value) : ∃ p, cs.find? (fun c => c.1.admits v) = some p := by
  have hlast : ∃ p ∈ cs, p.1.admits v = true := by
    unfold endsInDefault at h
    split at h
    · cases h
    · rename_i head r hl
      refine ⟨_, List.mem_of_getLast? hl, ?_⟩
      simp only [CaseHead.admits, Option.isNone_iff_eq_none.mp h]
  exact Option.isSome_iff_exists.mp (List.find?_isSome.mpr hlast)

theorem endsInDefault_map (cs : List (CaseHead × Expr)) (f : Expr → Expr) :
    endsInDefault (cs.map fun p => (p.1, f p.2)) = endsInDefault cs := by
  simp only [endsInDefault, List.getLast?_map]
  cases cs.getLast? <;> rfl

theorem optimizeTypeswitch_reaches {sub : Substitution} {depth : Nat}
    (hsub : Works checks depth sub) {e : Expr} {cs : List (CaseHead × Expr)} (he : e.Settled)
    (hcs : ∀ p ∈ cs, p.2.Settled) (hdepth : ∀ p ∈ cs, p.2.dispatchDepth < depth)
    (hdef : endsInDefault cs = true) (span : Span) :
    Reaches checks K (.typeswitch e cs span) (optimizeTypeswitch sub e cs span).value := by
  simp only [optimizeTypeswitch]
  split
  · rename_i h
    simp only [Bool.and_eq_true, List.all_eq_true, Bool.not_eq_true'] at h
    exact .ok (.rule (.vacuous h.1 h.2)) (Expr.settled_literal [])
  · rename_i hvac
    split
    · rename_i v
      obtain ⟨⟨head, r⟩, hf⟩ := endsInDefault_find? hdef v
      have hmem := List.mem_of_find?_eq_some hf
      simp only [hf, takeCase]
      cases hx : head.var with
      | none => exact .ok (.rule (.typeCase hf hx)) (hcs _ hmem)
      | some x =>
        have hs := hsub K x v r (hcs _ hmem) (hdepth _ hmem)
        simp only [Attempt.value_andThen, Attempt.value_after, Attempt.value_map]
        cases hr : (sub x v r).value with
        | error t => exact .error (.boundFails hf hx (hs.failed t hr))
        | ok r' =>
          have h := hs.revision r' hr
          exact .ok (.bound hf hx h.rewrites h.avoids) h.settled
    · rename_i hl
      refine .self (Expr.every_typeswitch.mpr ⟨⟨hdef, Expr.literal?_eq_none.mpr hl, ?_⟩, he, hcs⟩)
      exact Bool.eq_false_iff.mpr hvac

/-! ## Nodes -/

variable {sub : Substitution}

/-- A node over revised parts is optimised again if one of them has changed. -/
theorem rebuilt_substituted {e node : Expr} {changed : Bool} (he : e.Settled)
    (hnode : Rewrites checks ((x, v) :: K) e (.ok node)) (havoids : node.Avoids x)
    (hopt : Reaches checks ((x, v) :: K) node (optimizeWith sub node).value)
    (hsame : changed = false → node = e) :
    Substituted checks K x v e (rebuilt sub changed node).value := by
  cases changed with
  | false =>
    have := hsame rfl
    exact .ok ⟨hnode, this ▸ he, havoids, fun _ => this⟩
  | true =>
    simp only [rebuilt, if_true, Attempt.value_map]
    cases hr : (optimizeWith sub node).value with
    | error t =>
      rw [hr] at hopt
      exact .error (.trans hnode hopt.rewrites)
    | ok e' =>
      rw [hr] at hopt
      exact .ok ⟨.trans hnode hopt.rewrites, hopt.settled e' rfl, hopt.rewrites.avoids havoids,
        fun hc => by cases hc⟩

theorem Substituted.first {F : Frame} (hF : F.IsFirst) {e : Expr} {t : CompileError}
    (h : Substituted checks K x v e (.error t)) :
    Substituted checks K x v (F.plug e) (.error t) :=
  .error (.first F hF (h.failed t rfl))

/-- The optimiser is right for a settled node over revised parts. -/
theorem Revises.reaches {depth : Nat} (hsub : Works checks depth sub) {f : Expr → Revised Expr}
    {e node : Expr} {changed : Bool} (h : Revises f e node changed) (he : e.Settled)
    (hdepth : e.dispatchDepth ≤ depth)
    (hf : ∀ d ∈ e.children, (f d).value.Settled ∧ (f d).value.dispatchDepth ≤ d.dispatchDepth) :
    Reaches checks K node (optimizeWith sub node).value := by
  have hparts : ∀ d ∈ node.children, d.Settled := fun d hd => by
    obtain ⟨d', hd', rfl⟩ := h.parts d hd
    exact (hf d' hd').1
  cases h with
  | connective => exact optimizeConnective_reaches hparts
  | truncated => exact optimizeConnective_reaches hparts
  | switch =>
    obtain ⟨ho, hcs, hd⟩ := Expr.forall_children_switch.mp hparts
    exact optimizeSwitch_reaches ho hcs hd _
  | @typeswitch o cs span =>
    obtain ⟨⟨hdef, _⟩, _⟩ := Expr.every_typeswitch.mp he
    obtain ⟨m, rfl, _, hdcs⟩ := Expr.typeswitch_depth.mp hdepth
    obtain ⟨ho, hcs⟩ := Expr.forall_children_typeswitch.mp hparts
    refine optimizeTypeswitch_reaches hsub ho hcs (fun p hp => ?_)
      ((endsInDefault_map cs fun e => (f e).value).trans hdef) span
    obtain ⟨q, hq, rfl⟩ := List.mem_map.mp hp
    have hq' := ((Expr.forall_children_typeswitch.mp hf).2 q hq).2
    exact Nat.lt_succ_of_le (Nat.le_trans hq' (hdcs q hq))
  | cast =>
    exact optimizeCast_reaches (hparts _ (List.mem_singleton_self _)) (Expr.every_cast.mp he).1.1 _
  | call => exact optimizeCall_reaches _ (hparts _ (List.mem_singleton_self _)) _
  | @compare op l r span =>
    exact optimizeCompare_reaches op (hparts (f l).value (by simp [Expr.children]))
      (hparts (f r).value (by simp [Expr.children])) span
  | range => exact optimizeRange_reaches _ (hparts _ (List.mem_singleton_self _)) _
  | position => exact optimizePosition_reaches _ _ _
  | external => exact .self (Expr.every_external.mpr ⟨trivial, hparts⟩)
  | literal => exact .self he
  | failing => exact .self he

/-! ## Trees -/

theorem inlineWith_substituted {depth : Nat} (hsub : Works checks depth sub) {e : Expr}
    (he : e.Settled) (hdepth : e.dispatchDepth ≤ depth) :
    Substituted checks K x v e (inlineWith sub x (.literal v) e).value := by
  induction e using Expr.part_induction with
  | node e ih =>
    have hparts : ∀ d ∈ e.children,
        Substituted checks K x v d (inlineWith sub x (.literal v) d).value := fun d hd =>
      ih d hd ((Expr.every_iff.mp he).2 d hd) (Nat.le_trans (Expr.part_depth hd) hdepth)
    have h : InlinesTo sub x (.literal v) e (inlineWith sub x (.literal v) e).value :=
      inlineWith_inlinesTo e
    generalize (inlineWith sub x (.literal v) e).value = r at h
    cases h with
    | replaced hy =>
      exact .ok ⟨.known (List.mem_cons_self ..) hy, Expr.settled_literal v,
        Expr.every_literal.mpr id, fun hc => by cases hc⟩
    | kept hy =>
      exact .ok ⟨.refl, he, Expr.every_var.mpr hy, fun _ => rfl⟩
    | @failed F d t hF hd =>
      have hfirst := hparts d (F.mem_children d)
      rw [hd] at hfirst
      exact hfirst.first hF
    | revised hrev =>
      have hrevs := fun d hd => (hparts d hd).inlined
      have hopt := hrev.reaches (K := (x, v) :: K) hsub he hdepth fun d hd =>
        ⟨(hrevs d hd).settled, (hrevs d hd).rewrites.depth _ rfl _ (Nat.le_refl _)⟩
      exact rebuilt_substituted he (hrev.rewrites fun d hd => (hrevs d hd).rewrites)
        (hrev.avoids fun d hd => (hrevs d hd).avoids) hopt
        fun hc => hrev.same hc fun d hd => (hrevs d hd).same

/-- The fuel of a substitution is a depth that it works for. -/
theorem substitute_works (depth : Nat) : Works checks depth (substitute depth) := by
  induction depth with
  | zero => intro K x v e _ h; omega
  | succ depth ih =>
    intro K x v e he hd
    exact inlineWith_substituted ih he (Nat.le_of_lt_succ hd)

/-- A typeswitch of settled parts. -/
theorem optimize_typeswitch_reaches {e : Expr} {cs : List (CaseHead × Expr)} (he : e.Settled)
    (hcs : ∀ p ∈ cs, p.2.Settled) (hdef : endsInDefault cs = true) (span : Span) :
    Reaches checks K (.typeswitch e cs span) (Expr.typeswitch e cs span).optimize.value := by
  obtain ⟨m, hm, _, hd⟩ := Expr.typeswitch_depth.mp
    (Nat.le_refl (Expr.typeswitch e cs span).dispatchDepth)
  refine optimizeTypeswitch_reaches (substitute_works _) he hcs (fun p hp => ?_) hdef span
  rw [hm]
  exact Nat.lt_succ_of_le (hd p hp)

end

end QueryExpr
