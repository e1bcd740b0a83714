import QueryExpr.Proofs.Rules

/-!
# QueryExpr.Proofs.Node

The rules of single nodes, as rewriting that ends in settled expressions. `Reaches` states both
halves: the outcome comes from rules, and an expression in it is settled.
-/

namespace QueryExpr

/-- Rules lead to an outcome, and no rule applies to an expression in it. -/
structure Reaches (checks : Checks) (K : Known) (e : Expr) (r : Except CompileError Expr) :
    Prop where
  rewrites : Rewrites checks K e r
  settled : ∀ e', r = .ok e' → e'.Settled

section
variable {checks : Checks} {K : Known}

namespace Reaches

theorem ok {e e' : Expr} (h : Rewrites checks K e (.ok e')) (hs : e'.Settled) :
    Reaches checks K e (.ok e') :=
  ⟨h, fun _ he => by cases he; exact hs⟩

theorem error {e : Expr} {t : CompileError} (h : Rewrites checks K e (.error t)) :
    Reaches checks K e (.error t) :=
  ⟨h, fun _ he => by cases he⟩

theorem self {e : Expr} (hs : e.Settled) : Reaches checks K e (.ok e) := .ok .refl hs

theorem after {e e' : Expr} {r : Except CompileError Expr} (h : Rewrites checks K e (.ok e'))
    (hr : Reaches checks K e' r) : Reaches checks K e r :=
  ⟨.trans h hr.rewrites, hr.settled⟩

end Reaches

/-! ## Boolean functions -/

theorem asCondition_rewrites (fn : Builtin) (e : Expr) (span : Span) :
    Rewrites checks K (.call fn e span) (.ok (.call fn e.asCondition.value span)) := by
  induction e with
  | call fn' arg s ih =>
    cases fn' with
    | boolean => exact .trans (.rule .core) ih
    | not => exact .refl
  | _ => exact .refl

theorem asCondition_kind (e : Expr) : e.asCondition.value.kind ≠ .boolean := by
  induction e with
  | connective c es span => cases c <;> simp [Expr.asCondition, Expr.kind, Connective.kind]
  | call fn' arg s ih =>
    cases fn' with
    | boolean => exact ih
    | not => simp [Expr.asCondition, Expr.kind, Builtin.kind]
  | _ => simp [Expr.asCondition, Expr.kind]

theorem asCondition_of_kind {e : Expr} (h : e.kind ≠ .boolean) : e.asCondition = .of e := by
  cases e with
  | call fn arg s =>
    cases fn with
    | boolean => exact absurd rfl h
    | not => rfl
  | _ => rfl

theorem asCondition_occursIn (e : Expr) : e.asCondition.value.OccursIn e := by
  induction e with
  | call fn arg s ih =>
    cases fn with
    | boolean => exact .child (List.mem_singleton_self arg) ih
    | not => exact .self _
  | _ => exact .self _

theorem asCondition_settled {e : Expr} (he : e.Settled) : e.asCondition.value.Settled :=
  Expr.Every.part he (asCondition_occursIn e)

/-- What becomes of the boolean of an expression. -/
theorem optimizeBoolean_eq_ok {e d : Expr} {span : Span}
    (h : (optimizeBoolean e span).value = .ok d) :
    (∃ v b, e.asCondition.value = .literal v ∧ v.ebv span = .ok b ∧ d = .literal (.ofTruth b)) ∨
    (d = e.asCondition.value ∧ d.type = .booleanOne) ∨
    (d = .call .boolean e.asCondition.value span ∧ e.asCondition.value.type ≠ .booleanOne) := by
  simp only [optimizeBoolean, Attempt.value_after] at h
  split at h
  · rename_i v hv
    split at h
    · cases h
    · rename_i b hb; cases h; exact .inl ⟨v, b, hv, hb, rfl⟩
  · split at h
    · rename_i ht; cases h; exact .inr (.inl ⟨rfl, ht⟩)
    · rename_i ht; cases h; exact .inr (.inr ⟨rfl, ht⟩)

/-- What becomes of the boolean of an expression that is neither one already nor a literal. -/
theorem optimizeBoolean_bare {e d : Expr} {span : Span}
    (he : e.kind ≠ .boolean ∧ ∀ v, e ≠ .literal v) (h : (optimizeBoolean e span).value = .ok d) :
    (d = e ∧ e.type = .booleanOne) ∨ (d = .call .boolean e span ∧ e.type ≠ .booleanOne) := by
  have hcore : e.asCondition.value = e := by rw [asCondition_of_kind he.1]; rfl
  rcases optimizeBoolean_eq_ok h with ⟨v, b, hv, -, -⟩ | ⟨rfl, ht⟩ | ⟨rfl, ht⟩
  · exact absurd (hcore.symm.trans hv) (he.2 v)
  · rw [hcore] at ht ⊢; exact .inl ⟨rfl, ht⟩
  · rw [hcore] at ht ⊢; exact .inr ⟨rfl, ht⟩

theorem optimizeBoolean_rewrites (e : Expr) (span : Span) :
    Rewrites checks K (.call .boolean e span) (optimizeBoolean e span).value := by
  refine .trans (asCondition_rewrites .boolean e span) ?_
  simp only [optimizeBoolean, Attempt.value_after]
  generalize e.asCondition.value = core
  split
  · split
    · rename_i t ht; exact .rule (.undefinedArgument ht)
    · rename_i b hb; exact .rule (.booleanLiteral hb)
  · split
    · rename_i ht; exact .rule (.isBoolean ht)
    · exact .refl

theorem optimizeBoolean_settled {e : Expr} (he : e.Settled) (span : Span) :
    ∀ e', (optimizeBoolean e span).value = .ok e' → e'.Settled := by
  intro e' h
  have hc := asCondition_settled he
  have hk := asCondition_kind e
  simp only [optimizeBoolean, Attempt.value_after] at h
  split at h
  · split at h
    · cases h
    · cases h; exact Expr.settled_literal _
  · rename_i hl
    split at h
    · cases h; exact hc
    · rename_i ht
      cases h
      exact Expr.every_call.mpr ⟨⟨Expr.literal?_eq_none.mpr hl, hk, ht⟩, hc⟩

theorem optimizeBoolean_reaches {e : Expr} (he : e.Settled) (span : Span) :
    Reaches checks K (.call .boolean e span) (optimizeBoolean e span).value :=
  ⟨optimizeBoolean_rewrites e span, optimizeBoolean_settled he span⟩

/-- What becomes of the negation of an expression. -/
theorem optimizeNot_eq_ok {e d : Expr} {span : Span} (h : (optimizeNot e span).value = .ok d) :
    (∃ v b, e.asCondition.value = .literal v ∧ v.ebv span = .ok b ∧ d = .ofBool !b.value) ∨
    (∃ inner s, e.asCondition.value = .call .not inner s ∧
      (optimizeBoolean inner span).value = .ok d) ∨
    (d = .call .not e.asCondition.value span ∧ e.asCondition.value.literal? = none ∧
      e.asCondition.value.kind ≠ .negation) := by
  simp only [optimizeNot, Attempt.value_after] at h
  split at h
  · rename_i v hv
    split at h
    · cases h
    · rename_i b hb; cases h; exact .inl ⟨v, b, hv, hb, rfl⟩
  · rename_i inner s hv
    obtain ⟨d', hd, hr⟩ := Attempt.andThen_eq_ok.mp h
    cases hr
    exact .inr (.inl ⟨inner, s, hv, hd⟩)
  · rename_i hl hn
    cases h
    refine .inr (.inr ⟨rfl, Expr.literal?_eq_none.mpr hl, fun hk => ?_⟩)
    obtain ⟨arg, s, harg⟩ := Expr.kind_eq_negation.mp hk
    exact hn arg s harg

theorem optimizeNot_rewrites (e : Expr) (span : Span) :
    Rewrites checks K (.call .not e span) (optimizeNot e span).value := by
  refine .trans (asCondition_rewrites .not e span) ?_
  simp only [optimizeNot, Attempt.value_after]
  generalize e.asCondition.value = core
  split
  · split
    · rename_i t ht; exact .rule (.undefinedArgument ht)
    · rename_i b hb; exact .rule (.notLiteral hb)
  · rename_i inner s
    have hb : Rewrites checks K (.call .boolean inner span) (optimizeBoolean inner span).value :=
      optimizeBoolean_rewrites inner span
    refine .trans (.rule .doubleNegation) ?_
    simp only [Attempt.value_after]
    cases hr : (optimizeBoolean inner span).value with
    | error t => rw [hr] at hb; rw [Attempt.andThen_of_error hr]; exact hb
    | ok e' => rw [hr] at hb; rw [Attempt.andThen_of_ok hr]; exact hb
  · exact .refl

theorem optimizeNot_settled {e : Expr} (he : e.Settled) (span : Span) :
    ∀ e', (optimizeNot e span).value = .ok e' → e'.Settled := by
  intro e' h
  have hc := asCondition_settled he
  rcases optimizeNot_eq_ok h with ⟨v, b, -, -, rfl⟩ | ⟨inner, s, hv, hd⟩ | ⟨rfl, hl, hn⟩
  · exact Expr.settled_literal _
  · rw [hv] at hc
    exact optimizeBoolean_settled (Expr.every_call.mp hc).2 span e' hd
  · exact Expr.every_call.mpr ⟨⟨hl, asCondition_kind e, hn⟩, hc⟩

theorem optimizeNot_reaches {e : Expr} (he : e.Settled) (span : Span) :
    Reaches checks K (.call .not e span) (optimizeNot e span).value :=
  ⟨optimizeNot_rewrites e span, optimizeNot_settled he span⟩

theorem optimizeCall_rewrites (fn : Builtin) (e : Expr) (span : Span) :
    Rewrites checks K (.call fn e span) (optimizeCall fn e span).value := by
  cases fn with
  | boolean => exact optimizeBoolean_rewrites e span
  | not => exact optimizeNot_rewrites e span

theorem optimizeCall_reaches (fn : Builtin) {e : Expr} (he : e.Settled) (span : Span) :
    Reaches checks K (.call fn e span) (optimizeCall fn e span).value := by
  cases fn with
  | boolean => exact optimizeBoolean_reaches he span
  | not => exact optimizeNot_reaches he span

/-! ## Casts, comparisons, tests -/

/-- What is left of a cast: the converted literal, the operand, or the cast. -/
theorem optimizeCast_eq_ok {e d : Expr} {t : SeqType} {span : Span}
    (h : (optimizeCast e t span).value = .ok d) :
    (∃ v w, e = .literal v ∧ v.cast t span = .ok w ∧ d = .literal w) ∨
      (castIsVoid e.type t = true ∧ d = e) ∨ d = .cast e t span := by
  simp only [optimizeCast] at h
  split at h
  · rename_i v
    split at h
    · cases h
    · rename_i w hw; cases h; exact .inl ⟨v, w, rfl, hw, rfl⟩
  · split at h
    · rename_i hvoid; cases h; exact .inr (.inl ⟨hvoid, rfl⟩)
    · cases h; exact .inr (.inr rfl)

theorem optimizeCast_rewrites (e : Expr) (t : SeqType) (span : Span) :
    Rewrites checks K (.cast e t span) (optimizeCast e t span).value := by
  simp only [optimizeCast]
  split
  · split
    · rename_i cause hv; exact .rule (.castFails hv)
    · rename_i w hw; exact .rule (.castLiteral hw)
  · split
    · rename_i hv; exact .rule (.castVoid hv)
    · exact .refl

theorem optimizeCast_reaches {e : Expr} {t : SeqType} (he : e.Settled)
    (ht : t.isCastTarget = true) (span : Span) :
    Reaches checks K (.cast e t span) (optimizeCast e t span).value := by
  refine ⟨optimizeCast_rewrites e t span, fun e' h => ?_⟩
  simp only [optimizeCast] at h
  split at h
  · split at h
    · cases h
    · cases h; exact Expr.settled_literal _
  · rename_i hl
    split at h
    · cases h; exact he
    · rename_i hv
      cases h
      exact Expr.every_cast.mpr ⟨⟨ht, Expr.literal?_eq_none.mpr hl, by simpa using hv⟩, he⟩

theorem optimizeCompare_rewrites (op : CompareOp) (l r : Expr) (span : Span) :
    Rewrites checks K (.compare op l r span) (optimizeCompare op l r span).value := by
  simp only [optimizeCompare]
  split
  · split
    · rename_i t ht; exact .rule (.compareFails ht)
    · rename_i b hb; exact .rule (.compareLiterals hb)
  · exact .refl

theorem optimizeCompare_reaches {l r : Expr} (op : CompareOp) (hl : l.Settled) (hr : r.Settled)
    (span : Span) :
    Reaches checks K (.compare op l r span) (optimizeCompare op l r span).value := by
  refine ⟨optimizeCompare_rewrites op l r span, fun e' h => ?_⟩
  simp only [optimizeCompare] at h
  split at h
  · split at h
    · cases h
    · rename_i b hb; cases h; exact Expr.settled_ofBool b
  · rename_i hlit
    cases h
    refine Expr.every_compare.mpr ⟨?_, hl, hr⟩
    cases h : l.literal? with
    | none => exact .inl h
    | some v =>
      refine .inr (Expr.literal?_eq_none.mpr fun w hw => ?_)
      exact hlit v w (Expr.literal?_eq_some.mp h) hw

theorem optimizeRange_rewrites (b : Bounds) (e : Expr) (span : Span) :
    Rewrites checks K (.range b e span) (optimizeRange b e span).value := by
  simp only [optimizeRange]
  split
  · rename_i hb; exact .rule (.rangeEmpty hb)
  · split
    · split
      · rename_i t ht; exact .rule (.rangeFails ht)
      · rename_i a ha; exact .rule (.rangeLiteral ha)
    · exact .refl

theorem optimizeRange_reaches {e : Expr} (b : Bounds) (he : e.Settled) (span : Span) :
    Reaches checks K (.range b e span) (optimizeRange b e span).value := by
  refine ⟨optimizeRange_rewrites b e span, fun e' h => ?_⟩
  simp only [optimizeRange] at h
  split at h
  · cases h; exact Expr.settled_ofBool false
  · rename_i hb
    split at h
    · split at h
      · cases h
      · rename_i a ha; cases h; exact Expr.settled_ofBool a
    · rename_i hl
      cases h
      exact Expr.every_range.mpr ⟨⟨by simpa using hb, Expr.literal?_eq_none.mpr hl⟩, he⟩

theorem optimizePosition_reaches (min max : Int64) (span : Span) :
    Reaches checks K (.position min max span) (optimizePosition min max span).value := by
  simp only [optimizePosition]
  split
  · rename_i h; exact .self (Expr.every_position.mpr h)
  · rename_i b h; exact .ok (.rule (.positionConstant h)) (Expr.settled_ofBool b)

/-! ## Switches -/

/-- A branch that is taken is the result of a case. -/
theorem chooseCase_branch {i : Option Item} {span : Span} {cs : List (Expr × Expr)} {r : Expr}
    (h : chooseCase i span cs = .ok (.branch r)) : ∃ v, (v, r) ∈ cs := by
  fun_induction chooseCase i span cs with
  | case1 => simp at h
  | case2 => simp at h
  | case3 w r' cs j hj hm => cases h; exact ⟨_, List.mem_cons_self ..⟩
  | case4 w r' cs j hj hm ih =>
    obtain ⟨v, hv⟩ := ih h
    exact ⟨v, List.mem_cons_of_mem _ hv⟩
  | case5 => simp at h

theorem optimizeSwitch_rewrites (e : Expr) (cs : List (Expr × Expr)) (d : Expr) (span : Span) :
    Rewrites checks K (.switch e cs d span) (optimizeSwitch e cs d span).value := by
  simp only [optimizeSwitch]
  split
  · split
    · rename_i t ht; exact .rule (.switchLong ht)
    · rename_i i hi
      split
      · rename_i t ht; exact .rule (.switchFails hi ht)
      · exact .refl
      · rename_i hc; exact .rule (.switchDefault hi hc)
      · rename_i r hc; exact .rule (.switchBranch hi hc)
  · exact .refl

theorem optimizeSwitch_reaches {e d : Expr} {cs : List (Expr × Expr)} (he : e.Settled)
    (hcs : ∀ p ∈ cs, p.1.Settled ∧ p.2.Settled) (hd : d.Settled) (span : Span) :
    Reaches checks K (.switch e cs d span) (optimizeSwitch e cs d span).value := by
  refine ⟨optimizeSwitch_rewrites e cs d span, fun e' h => ?_⟩
  have hnode (hr : (Expr.switch e cs d span).AtRest) : (Expr.switch e cs d span).Settled :=
    Expr.every_switch.mpr ⟨hr, he, hcs, hd⟩
  simp only [optimizeSwitch] at h
  split at h
  · rename_i v
    split at h
    · cases h
    · rename_i i hi
      split at h
      · cases h
      · rename_i hc
        cases h
        exact hnode fun v' hv => by cases hv; exact ⟨i, hi, hc⟩
      · cases h; exact hd
      · rename_i r hc
        obtain ⟨v', hv'⟩ := chooseCase_branch hc
        cases h
        exact (hcs _ hv').2
  · rename_i hl
    cases h
    exact hnode fun v hv => absurd hv (hl v)

end

end QueryExpr
