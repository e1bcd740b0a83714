import QueryExpr.Proofs.Inline

/-!
# QueryExpr.Proofs.RuleOrder

The rules of the optimiser on parts that need not be settled. Such parts are rewritten as settled
ones are, except that neighbours may be merged that are not at rest.

* `RuleOrder` — a relation between what is left of an expression and the expression, which holds for
  rewriting and for every merge.
* `optimizeConnective_order`, `optimizeTypeswitch_order`, `optimizeWith_order` — it holds for what
  the optimiser makes of a node, whatever the parts of the node are.

A property that the optimiser cannot break is stated as such a relation, and then has to be looked
at for single rules only.
-/

namespace QueryExpr

/-- A relation between what is left of an expression and the expression, which no rule breaks. -/
structure RuleOrder (R : Expr → Expr → Prop) : Prop where
  trans : ∀ {a b c}, R a b → R b c → R a c
  rewrites : ∀ {checks K e e'}, Rewrites checks K e (.ok e') → R e' e
  merged : ∀ {c ds d e fs s m}, d.merge? c e = some m →
    R (.connective c (ds ++ m.value :: fs) s) (.connective c (ds ++ d :: e :: fs) s)
  negation : ∀ {e e' s}, R e' e → R (.call .not e' s) (.call .not e s)
  caseResult : ∀ {e cs s} {p : CaseHead × Expr}, p ∈ cs → R p.2 (.typeswitch e cs s)

namespace RuleOrder

section
variable {R : Expr → Expr → Prop} (hR : RuleOrder R) {c : Connective} {span : Span}

/-- Calls of external functions are accepted. -/
abbrev accepting : Checks := fun _ _ _ => .ok ()

include hR

theorem refl (e : Expr) : R e e := hR.rewrites (.refl : Rewrites accepting [] e (.ok e))

theorem of_rewrites {e e' : Expr} {r : Except CompileError Expr}
    (h : Rewrites accepting [] e r) (hr : r = .ok e') : R e' e := by
  subst hr
  exact hR.rewrites h

/-! ## Connectives -/

theorem mergeOnto_order (ds : List Expr) (d : Expr) (es : List Expr) :
    R (.connective c (ds ++ (mergeOnto c d es).value) span)
      (.connective c (ds ++ d :: es) span) := by
  induction es generalizing ds d with
  | nil => exact hR.refl _
  | cons e es ih =>
    simp only [mergeOnto]
    split
    · rename_i m hm; exact hR.trans (ih ds m.value) (hR.merged hm)
    · simpa using ih (ds ++ [d]) e

theorem combineOperands_order {es : List Expr} (hne : es ≠ []) {r : Round}
    (hr : (combineOperands c es span).value = .ok r) :
    R (r.expr c span) (.connective c es span) := by
  obtain ⟨e, es, rfl⟩ := List.exists_cons_of_ne_nil hne
  have hd : Rewrites accepting [] (.connective c (e :: es) span)
      (.ok (.connective c (dropDuplicates c [] (e :: es)).value span)) :=
    dropDuplicates_rewrites [] (e :: es)
  rw [dropDuplicates_cons] at hd
  have hm : R (.connective c (mergeOnto c e (dropDuplicates c [e] es).value).value span)
      (.connective c (e :: (dropDuplicates c [e] es).value) span) := hR.mergeOnto_order [] e _
  exact hR.trans (hR.of_rewrites (combineOperands_ends e es) (by rw [hr]; rfl))
    (hR.trans hm (hR.rewrites hd))

theorem connectiveStep_order {es : List Expr} {r : Round}
    (hr : (connectiveStep c es span).value = .ok r) :
    R (r.expr c span) (.connective c es span) := by
  obtain ⟨kept, hk, hr⟩ := Attempt.andThen_eq_ok.mp hr
  have hflat : Rewrites accepting [] (.connective c es span)
      (.ok (.connective c (operandsOf (pieces c es)) span)) := flatten_rewrites es
  have hsel : R (.connective c kept span) (.connective c es span) := by
    refine hR.trans (hR.of_rewrites (selectOperands_rewrites (pieces c es) true [] fun _ => rfl) ?_)
      (hR.rewrites hflat)
    rw [hk]; rfl
  refine hR.trans ?_ hsel
  split at hr
  · cases hr; exact hR.of_rewrites (.rule .noOperand) rfl
  · rename_i v
    have hkept : [Expr.literal v] = [] ++ [.literal v] := rfl
    obtain ⟨-, hv⟩ := selectOperands_literal hk hkept
    cases hr
    rw [hv]
    exact hR.of_rewrites (.rule .decidedOperand) rfl
  · rename_i hne _
    exact hR.combineOperands_order hne hr

/-- Whatever the number of rounds. -/
theorem rounds_order {fuel : Nat} {es : List Expr} {e : Expr}
    (h : (rounds fuel c es span).value = .ok e) : R e (.connective c es span) := by
  induction fuel generalizing c es e with
  | zero => cases h; exact hR.refl _
  | succ fuel ih =>
    obtain ⟨r, hr, h⟩ := Attempt.andThen_eq_ok.mp h
    refine hR.trans ?_ (hR.connectiveStep_order hr)
    cases r with
    | done e' => cases h; exact hR.refl _
    | again fs => exact ih h
    | negation fs =>
      obtain ⟨d, hd, h⟩ := Attempt.andThen_eq_ok.mp h
      obtain ⟨d', hd', h⟩ := Attempt.andThen_eq_ok.mp h
      cases h
      exact hR.trans (hR.of_rewrites (optimizeNot_rewrites d span) hd') (hR.negation (ih hd))

theorem optimizeConnective_order {es : List Expr} {e : Expr}
    (h : (optimizeConnective c es span).value = .ok e) : R e (.connective c es span) :=
  hR.rounds_order h

/-! ## Nodes -/

/-- A literal is substituted in the result of a case, where the relation must hold. -/
theorem optimizeTypeswitch_order {sub : Substitution} {e e' : Expr} {cs : List (CaseHead × Expr)}
    (hsub : ∀ p ∈ cs, ∀ x v r, (sub x v p.2).value = .ok r → R r.value p.2)
    (h : (optimizeTypeswitch sub e cs span).value = .ok e') : R e' (.typeswitch e cs span) := by
  simp only [optimizeTypeswitch] at h
  split at h
  · rename_i hvac
    simp only [Bool.and_eq_true, List.all_eq_true, Bool.not_eq_true'] at hvac
    cases h
    exact hR.of_rewrites (.rule (.vacuous hvac.1 hvac.2)) rfl
  · split at h
    · split at h
      · cases h; exact hR.refl _
      · rename_i head result hfind
        have hmem := List.mem_of_find?_eq_some hfind
        obtain ⟨taken, ht, h⟩ := Attempt.andThen_eq_ok.mp h
        cases h
        refine hR.trans ?_ (hR.caseResult hmem)
        simp only [takeCase] at ht
        split at ht
        · cases ht; exact hR.refl _
        · rename_i x _
          simp only [Attempt.value_after, Attempt.value_map] at ht
          cases hr : (sub x _ result).value with
          | error t => rw [hr] at ht; cases ht
          | ok r => rw [hr] at ht; cases ht; exact hsub _ hmem x _ r hr
    · cases h; exact hR.refl _

/-- The relation holds for what the optimiser makes of a node, if it holds for the substitutions in
the results of its cases. -/
theorem optimizeWith_order {sub : Substitution} {node e : Expr}
    (hsub : ∀ o cs s, node = .typeswitch o cs s →
      ∀ p ∈ cs, ∀ x v r, (sub x v p.2).value = .ok r → R r.value p.2)
    (h : (optimizeWith sub node).value = .ok e) : R e node := by
  cases node with
  | connective c es span => exact hR.optimizeConnective_order h
  | switch o cs d span => exact hR.of_rewrites (optimizeSwitch_rewrites o cs d span) h
  | typeswitch o cs span => exact hR.optimizeTypeswitch_order (hsub o cs span rfl) h
  | cast o t span => exact hR.of_rewrites (optimizeCast_rewrites o t span) h
  | call fn o span => exact hR.of_rewrites (optimizeCall_rewrites fn o span) h
  | compare op l r span => exact hR.of_rewrites (optimizeCompare_rewrites op l r span) h
  | range b o span => exact hR.of_rewrites (optimizeRange_rewrites b o span) h
  | position a b span => exact hR.of_rewrites (optimizePosition_reaches a b span).rewrites h
  | literal v => cases h; exact hR.refl _
  | var x span => cases h; exact hR.refl _
  | external fn es tail span => cases h; exact hR.refl _
  | failing t type span => cases h; exact hR.refl _

end

end RuleOrder

end QueryExpr
