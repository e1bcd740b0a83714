import QueryExpr.Compile.Context
import QueryExpr.Proofs.Inline

/-!
# QueryExpr.Proofs.NormalForm

Compilation of whole trees is rewriting, and it ends in settled trees.

* `Expr.compile_reaches`      — by induction over the tree, one case for each kind of node.
* `compile_connective_normal` — so every connective in a compiled tree is in normal form.
-/

namespace QueryExpr

/-- What stands for an operand after compilation: the compiled operand, or its parked error. -/
def Expr.compiled (checks : Checks) (e : Expr) : Expr := parkedAs e (e.compile checks).value

section
variable {checks : Checks} {K : Known}

/-! ## Lists of parts -/

theorem compileRest_value (es : List Expr) :
    (compileRest checks es).value = es.map (·.compiled checks) := by
  induction es with
  | nil => rfl
  | cons e es ih => simp [compileRest, ih, Expr.compiled]

theorem compileCases_value (cs : List (Expr × Expr)) :
    (compileCases checks cs).value =
      cs.map fun p => (p.1.compiled checks, p.2.compiled checks) := by
  induction cs with
  | nil => rfl
  | cons p cs ih =>
    obtain ⟨v, r⟩ := p
    simp [compileCases, ih, Expr.compiled]

theorem compileTypeCases_value (cs : List (CaseHead × Expr)) :
    (compileTypeCases checks cs).value = cs.map fun p => (p.1, p.2.compiled checks) := by
  induction cs with
  | nil => rfl
  | cons p cs ih =>
    obtain ⟨head, r⟩ := p
    simp [compileTypeCases, ih, Expr.compiled]

theorem compileOperands_of_ok {e e' : Expr} {es : List Expr}
    (h : (e.compile checks).value = .ok e') :
    (compileOperands checks (e :: es)).value = .ok (e' :: es.map (·.compiled checks)) := by
  simp [compileOperands, Attempt.andThen_of_ok h, compileRest_value, Except.map]

theorem compileOperands_of_error {e : Expr} {es : List Expr} {t : CompileError}
    (h : (e.compile checks).value = .error t) :
    (compileOperands checks (e :: es)).value = .error t := by
  simp [compileOperands, Attempt.andThen_of_error h]

/-! ## Trees -/

theorem Reaches.compiled {e : Expr} (h : Reaches checks K e (e.compile checks).value) :
    Rewrites checks K e (.ok (e.compiled checks)) ∧ (e.compiled checks).Settled := by
  refine ⟨h.rewrites.parked, ?_⟩
  unfold Expr.compiled
  cases hr : (e.compile checks).value with
  | error t => exact Expr.settled_failing t e.type e.span
  | ok e' => exact h.settled e' hr

/-- Compiled operands of a node whose operands are in a row. -/
theorem compileOperands_row {mk : List Expr → Expr} (hmk : IsRow mk) {es : List Expr}
    (hes : ∀ e ∈ es, Reaches checks K e (e.compile checks).value) :
    (∀ t, (compileOperands checks es).value = .error t → Rewrites checks K (mk es) (.error t)) ∧
    ∀ fs, (compileOperands checks es).value = .ok fs →
      Rewrites checks K (mk es) (.ok (mk fs)) ∧ ∀ e ∈ fs, e.Settled := by
  cases es with
  | nil =>
    refine ⟨fun t h => (nomatch h), fun fs h => ?_⟩
    cases h
    exact ⟨.refl, by simp⟩
  | cons e es =>
    obtain ⟨he, hes⟩ := List.forall_mem_cons.mp hes
    cases hr : (e.compile checks).value with
    | error t =>
      rw [hr] at he
      rw [compileOperands_of_error hr]
      refine ⟨fun t' h => ?_, fun fs h => (nomatch h)⟩
      cases h
      exact .rowFails hmk he.rewrites
    | ok e' =>
      rw [hr] at he
      rw [compileOperands_of_ok hr]
      refine ⟨fun t h => (nomatch h), fun fs h => ?_⟩
      cases h
      refine ⟨?_, List.forall_mem_cons.mpr ⟨he.settled e' rfl, fun d hd => ?_⟩⟩
      · obtain ⟨F, hF, _⟩ := hmk [] es
        have h₁ := Rewrites.inside F he.rewrites
        rw [hF, hF] at h₁
        exact .trans h₁ (.row hmk (fun d hd => (hes d hd).compiled.1) [e'])
      · obtain ⟨d', hd', rfl⟩ := List.mem_map.mp hd
        exact (hes d' hd').compiled.2

/-- A node of which one part is evaluated first: the node fails with it, or goes on. -/
theorem Reaches.first {F : Frame} (hF : F.IsFirst) {e : Expr} {x : Attempt Expr}
    (he : Reaches checks K e x.value) {f : Expr → Attempt Expr}
    (hok : ∀ e', x.value = .ok e' → e'.Settled → Reaches checks K (F.plug e') (f e').value) :
    Reaches checks K (F.plug e) (x.andThen f).value := by
  cases hr : x.value with
  | error t =>
    rw [hr] at he
    rw [Attempt.andThen_of_error hr]
    exact .error (.first F hF he.rewrites)
  | ok e' =>
    rw [hr] at he
    rw [Attempt.andThen_of_ok hr]
    exact .after (.inside F he.rewrites) (hok e' hr (he.settled e' rfl))

theorem checkedCast_reaches {e : Expr} {t : SeqType} (he : e.Settled) (ht : t.isCastTarget = true)
    (span : Span) : Reaches checks K (.cast e t span) (checkedCast e t span).value := by
  simp only [checkedCast]
  split
  · rename_i hlong; exact .error (.rule (.castLong hlong))
  · exact optimizeCast_reaches he ht span

/-- Compilation is rewriting, and a compiled expression is settled. -/
theorem Expr.compile_reaches (e : Expr) : Reaches checks K e (e.compile checks).value := by
  induction e with
  | connective c es span ih =>
    obtain ⟨hf, hok⟩ := compileOperands_row (isRow_connective c span) ih
    simp only [Expr.compile]
    cases hr : (compileOperands checks es).value with
    | error t => rw [Attempt.andThen_of_error hr]; exact .error (hf t hr)
    | ok fs =>
      obtain ⟨hrew, hset⟩ := hok fs hr
      rw [Attempt.andThen_of_ok hr]
      exact .after hrew (optimizeConnective_reaches hset)
  | switch e cs d span ihe ihcs ihd =>
    refine .first (F := .switchOperand cs d span) trivial ihe fun e' _ he' => ?_
    simp only [Attempt.andThen_lift, compileCases_value, Attempt.parked_value]
    have hcs : Rewrites checks K (.switch e' cs d span) (.ok (.switch e'
        (cs.map fun p => (p.1.compiled checks, p.2.compiled checks)) d span)) :=
      .cases (fun p hp => ⟨(ihcs p hp).1.compiled.1, (ihcs p hp).2.compiled.1⟩) []
    refine .after hcs (.after (.inside (.switchDefault e' _ span) ihd.compiled.1) ?_)
    refine optimizeSwitch_reaches he' (fun p hp => ?_) ihd.compiled.2 span
    obtain ⟨q, hq, rfl⟩ := List.mem_map.mp hp
    exact ⟨(ihcs q hq).1.compiled.2, (ihcs q hq).2.compiled.2⟩
  | typeswitch e cs span ihe ihcs =>
    simp only [Expr.compile]
    split
    · rename_i hdef
      refine .first (F := .typeOperand cs span) trivial ihe fun e' _ he' => ?_
      simp only [Attempt.andThen_lift, compileTypeCases_value]
      have hcs : Rewrites checks K (.typeswitch e' cs span) (.ok (.typeswitch e'
          (cs.map fun p => (p.1, p.2.compiled checks)) span)) :=
        .typeCases (fun p hp => (ihcs p hp).compiled.1) []
      refine .after hcs (optimize_typeswitch_reaches he' (fun p hp => ?_) ?_ span)
      · obtain ⟨q, hq, rfl⟩ := List.mem_map.mp hp
        exact (ihcs q hq).compiled.2
      · rw [endsInDefault_map cs fun e => e.compiled checks]; exact hdef
    · rename_i hdef
      exact .error (.rule (.noDefault (by simpa using hdef)))
  | cast e t span ih =>
    simp only [Expr.compile]
    split
    · rename_i ht
      exact .first (F := .castOperand t span) trivial ih fun e' _ he' =>
        checkedCast_reaches he' ht span
    · rename_i ht
      exact .error (.rule (.castTarget (by simpa using ht)))
  | call fn e span ih =>
    exact .first (F := .callArgument fn span) trivial ih fun e' _ he' =>
      optimizeCall_reaches fn he' span
  | compare op l r span ihl ihr =>
    refine .first (F := .left op r span) trivial ihl fun l' _ hl' => ?_
    simp only [Attempt.andThen_lift, Attempt.parked_value]
    refine .after (.inside (.right op l' span) ihr.compiled.1) ?_
    exact optimizeCompare_reaches op hl' ihr.compiled.2 span
  | range b e span ih =>
    exact .first (F := .rangeOperand b span) trivial ih fun e' _ he' =>
      optimizeRange_reaches b he' span
  | position a b span => exact optimizePosition_reaches a b span
  | literal v => exact .self (Expr.settled_literal v)
  | var x span => exact .self (Expr.settled_var x span)
  | external fn es tail span ih =>
    obtain ⟨hf, hok⟩ := compileOperands_row (isRow_external fn tail span) ih
    simp only [Expr.compile]
    cases hr : (compileOperands checks es).value with
    | error t => rw [Attempt.andThen_of_error hr]; exact .error (hf t hr)
    | ok fs =>
      obtain ⟨hrew, hset⟩ := hok fs hr
      rw [Attempt.andThen_of_ok hr]
      refine .after hrew ?_
      split
      · rename_i t ht; exact .error (.rule (.rejected ht))
      · exact .self (Expr.every_external.mpr ⟨trivial, hset⟩)
  | failing c t span => exact .self (Expr.settled_failing c t span)

/-- A compiled expression is settled. -/
theorem Expr.compile_settled {e e' : Expr} (h : (e.compile checks).value = .ok e') :
    e'.Settled := by
  have hr : Reaches checks [] e (e.compile checks).value := e.compile_reaches
  exact hr.settled e' h

theorem Expr.compiled_rewrites (e : Expr) : Rewrites checks K e (.ok (e.compiled checks)) :=
  e.compile_reaches.compiled.1

theorem Expr.compiled_settled (e : Expr) : (e.compiled checks).Settled := by
  have h : Reaches checks [] e (e.compile checks).value := e.compile_reaches
  exact h.compiled.2

/-! ## Connectives -/

/-- Every conjunction and every disjunction anywhere in a compiled expression is in normal form,
whatever the context and the checks of external functions. -/
theorem compile_connective_normal {ctx : CompileContext} {checks : Checks} {e e' : Expr}
    (h : (ctx.compile checks e).1 = .ok e') {c : Connective} {es : List Expr} {span : Span}
    (ho : (Expr.connective c es span).OccursIn e') : c.Normal es :=
  Expr.compile_settled h _ ho

/-- A nested conjunction, a repeated operand in a call of `boolean`, and a literal. -/
theorem compile_connective_normal_nested :
    ((CompileContext.start {} .empty).compile (fun _ _ _ => .ok ())
      (.connective .conjunction
        [.connective .conjunction [.var ⟨0, "x", none⟩ .unknown, .var ⟨1, "y", none⟩ .unknown]
            .unknown,
          .call .boolean (.var ⟨0, "x", none⟩ .unknown) .unknown, .ofBool true] .unknown)).1 =
      .ok (.connective .conjunction
        [.var ⟨0, "x", none⟩ .unknown, .var ⟨1, "y", none⟩ .unknown] .unknown) ∧
    Connective.Normal .conjunction
      [.var ⟨0, "x", none⟩ .unknown, .var ⟨1, "y", none⟩ .unknown] := by
  refine ⟨?h, compile_connective_normal ?h (.self _)⟩
  rfl

end

end QueryExpr
