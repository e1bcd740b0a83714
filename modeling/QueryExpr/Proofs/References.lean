import QueryExpr.Compile.Context
import QueryExpr.Proofs.RuleOrder

/-!
# QueryExpr.Proofs.References

References to the variable that a substitution is for.

* `inlineWith_avoided`   — an expression without a reference is left as it is, and nothing is told.
* `inlined_unchanged`    — what is reported as unchanged had no reference.
* `inlined_avoids`       — no reference is left, unless the replacement brings it in.
* `CompileContext.inline_references` — the three together, for substitution in a context.

That no reference is left has to pass through the optimiser, which is called again for every node
above a reference, on parts that need not be settled: so for the optimiser it is stated as a
relation that no rule breaks (`avoids_order`).
-/

namespace QueryExpr

/-! ## Rules -/

/-- No rule brings a reference in. -/
theorem avoids_order (y : Var) : RuleOrder fun e' e => e.Avoids y → e'.Avoids y where
  trans h₁ h₂ h := h₁ (h₂ h)
  rewrites h := h.avoids
  merged {c ds d e fs s m} hm h := by
    have hes := (Expr.every_connective.mp h).2
    simp only [List.forall_mem_append, List.forall_mem_cons] at hes
    obtain ⟨hds, hd, he, hfs⟩ := hes
    have hV : (Vocabulary.without y).Closed RuleOrder.accepting := Vocabulary.without_closed y
    have hm' := Vocabulary.over_without.mp (merge?_over hV (Vocabulary.over_without.mpr hd)
      (Vocabulary.over_without.mpr he) hm)
    refine Expr.every_connective.mpr ⟨id, ?_⟩
    simpa only [List.forall_mem_append, List.forall_mem_cons] using ⟨hds, hm', hfs⟩
  negation h he := Expr.every_call.mpr ⟨id, h (Expr.every_call.mp he).2⟩
  caseResult hp h := (Expr.every_typeswitch.mp h).2.2 _ hp

/-- A substitution of a value brings no reference in. -/
def Substitution.Frugal (sub : Substitution) : Prop :=
  ∀ x v e r, (sub x v e).value = .ok r → ∀ y, e.Avoids y → r.value.Avoids y

section
variable {sub : Substitution} {x y : Var} {w : Expr}

theorem Substitution.Frugal.optimizeWith (hsub : sub.Frugal) {node e : Expr}
    (h : (optimizeWith sub node).value = .ok e) (hnode : node.Avoids y) : e.Avoids y :=
  (avoids_order y).optimizeWith_order (fun _ _ _ _ p _ x v r hr => hsub x v p.2 r hr y) h hnode

/-! ## What is left -/

/-- A reference in what is left comes from the replacement, or from one that the substitution is not
for. -/
theorem inlined_avoids (hsub : sub.Frugal) (hw : w.Avoids y) {e : Expr}
    (he : e.Every fun n => n.RefersTo y → n.RefersTo x) : (inlined sub x w e).value.Avoids y := by
  revert he
  refine inlined_induction (P := fun e e' =>
    (e.Every fun n => n.RefersTo y → n.RefersTo x) → e'.Avoids y)
    ?replaced ?kept ?parked ?revised ?optimized e
  case replaced => intro z span _ _; exact hw
  case kept => intro z span hz he; exact Expr.every_var.mpr fun hzy => hz (he.node hzy)
  case parked => intro e t _; exact Expr.every_failing.mpr id
  case revised =>
    intro e node changed hrev ih he
    exact hrev.avoids fun d hd => ih d hd ((Expr.every_iff.mp he).2 d hd)
  case optimized =>
    intro e node e' hnode ho he
    exact hsub.optimizeWith ho (hnode he)

/-- The substitutions of the compiler are, whatever their depth. -/
theorem substitute_frugal (depth : Nat) : (substitute depth).Frugal := by
  induction depth with
  | zero =>
    intro x v e r h y he
    cases h
    refine Expr.every_typeswitch.mpr ⟨id, Expr.every_literal.mpr id, fun p hp => ?_⟩
    rw [List.mem_singleton.mp hp]
    exact he
  | succ depth ih =>
    intro x v e r h y he
    have hw : (Expr.literal v).Avoids y := Expr.every_literal.mpr id
    have := inlined_avoids (x := x) ih hw (he.imp fun n hn hy => absurd hy hn)
    rwa [inlined_of_ok h] at this

/-! ## What is reported -/

/-- What is reported as unchanged had no reference. -/
theorem inlined_unchanged {e : Expr} (h : (inlined sub x w e).changed = false) : e.Avoids x := by
  induction e using Expr.part_induction with
  | node e ih =>
    have hto : InlinesTo sub x w e (inlineWith sub x w e).value := inlineWith_inlinesTo e
    rw [inlined] at h
    generalize (inlineWith sub x w e).value = r at hto h
    cases hto with
    | replaced => cases h
    | kept hy => exact Expr.every_var.mpr hy
    | failed => cases h
    | revised hrev =>
      have hc := changed_of_rebuilt h
      refine Expr.every_iff.mpr ⟨?_, fun d hd => ih d hd (hrev.unchanged hc d hd)⟩
      cases hrev <;> exact id

end

/-! ## Expressions without a reference -/

section
variable {sub : Substitution} {x : Var} {w : Expr}

theorem inlineRest_avoided {es : List Expr} (truncate : Bool)
    (hes : ∀ e ∈ es, inlineWith sub x w e = .ok ⟨e, false⟩) :
    inlineRest sub x w truncate es = .of ⟨es, false⟩ := by
  induction es with
  | nil => rfl
  | cons e es ih =>
    obtain ⟨he, hes⟩ := List.forall_mem_cons.mp hes
    simp only [inlineRest, he, ih hes]
    rfl

theorem inlineOperands_avoided {es : List Expr} (truncate : Bool)
    (hes : ∀ e ∈ es, inlineWith sub x w e = .ok ⟨e, false⟩) :
    inlineOperands sub x w truncate es = .ok ⟨es, false⟩ := by
  cases es with
  | nil => rfl
  | cons e es =>
    obtain ⟨he, hes⟩ := List.forall_mem_cons.mp hes
    simp only [inlineOperands, he, inlineRest_avoided truncate hes]
    rfl

theorem inlineCases_avoided {cs : List (Expr × Expr)}
    (hcs : ∀ p ∈ cs, inlineWith sub x w p.1 = .ok ⟨p.1, false⟩ ∧
      inlineWith sub x w p.2 = .ok ⟨p.2, false⟩) :
    inlineCases sub x w cs = .of ⟨cs, false⟩ := by
  induction cs with
  | nil => rfl
  | cons p cs ih =>
    obtain ⟨v, e⟩ := p
    obtain ⟨⟨h₁, h₂⟩, hcs⟩ := List.forall_mem_cons.mp hcs
    simp only [inlineCases, h₁, h₂, ih hcs]
    rfl

theorem inlineTypeCases_avoided {cs : List (CaseHead × Expr)}
    (hcs : ∀ p ∈ cs, inlineWith sub x w p.2 = .ok ⟨p.2, false⟩) :
    inlineTypeCases sub x w cs = .of ⟨cs, false⟩ := by
  induction cs with
  | nil => rfl
  | cons p cs ih =>
    obtain ⟨head, e⟩ := p
    obtain ⟨h, hcs⟩ := List.forall_mem_cons.mp hcs
    simp only [inlineTypeCases, h, ih hcs]
    rfl

/-- An expression without a reference is left as it is, and nothing is told. -/
theorem inlineWith_avoided {e : Expr} (he : e.Avoids x) :
    inlineWith sub x w e = .ok ⟨e, false⟩ := by
  induction e with
  | connective c es span ih =>
    have hes := (Expr.every_connective.mp he).2
    simp only [inlineWith, inlineOperands_avoided true fun e h => ih e h (hes e h)]
    rfl
  | switch e cs d span ihe ihcs ihd =>
    obtain ⟨-, he', hcs, hd⟩ := Expr.every_switch.mp he
    simp only [inlineWith, ihe he', ihd hd, inlineCases_avoided fun p h =>
      ⟨(ihcs p h).1 (hcs p h).1, (ihcs p h).2 (hcs p h).2⟩]
    rfl
  | typeswitch e cs span ihe ihcs =>
    obtain ⟨-, he', hcs⟩ := Expr.every_typeswitch.mp he
    simp only [inlineWith, ihe he', inlineTypeCases_avoided fun p h => ihcs p h (hcs p h)]
    rfl
  | cast e t span ih => simp only [inlineWith, ih (Expr.every_cast.mp he).2]; rfl
  | call fn e span ih => simp only [inlineWith, ih (Expr.every_call.mp he).2]; rfl
  | compare op l r span ihl ihr =>
    obtain ⟨-, hl, hr⟩ := Expr.every_compare.mp he
    simp only [inlineWith, ihl hl, ihr hr]
    rfl
  | range b e span ih => simp only [inlineWith, ih (Expr.every_range.mp he).2]; rfl
  | var y span =>
    have hy := Expr.every_var.mp he
    simp only [inlineWith]
    exact if_neg hy
  | external fn es tail span ih =>
    have hes := (Expr.every_external.mp he).2
    simp only [inlineWith, inlineOperands_avoided false fun e h => ih e h (hes e h)]
    rfl
  | _ => rfl

end

/-! ## In a context -/

/-- Substitution for a variable without a reference gives the expression itself, unchanged, and
leaves the context as it was. Otherwise what it gives is reported as changed, and holds no reference
unless the replacement does. -/
theorem CompileContext.inline_references (c : CompileContext) (e : Expr) (x : Var) (w : Expr) :
    (e.Avoids x → c.inline e x w = (.ok ⟨e, false⟩, c)) ∧
    (¬ e.Avoids x → ∀ r, (c.inline e x w).1 = .ok r →
      r.changed = true ∧ (w.Avoids x → r.value.Avoids x)) := by
  constructor
  · intro he
    simp only [inline, Expr.inline, inlineWith_avoided he]
    rfl
  · intro he r hr
    have hinlined := inlined_of_ok hr
    refine ⟨?_, fun hw => ?_⟩
    · rw [← hinlined]
      exact (Bool.not_eq_false _).mp fun h => he (inlined_unchanged h)
    · rw [← hinlined]
      exact inlined_avoids (substitute_frugal _) hw fun _ _ h => h

/-- A conjunction of references to two variables, of which one is to be replaced. -/
def bothReferences : Expr :=
  .connective .conjunction
    [.var ⟨0, "x", none⟩ ⟨1, 1⟩, .var ⟨1, "y", none⟩ ⟨1, 8⟩] ⟨1, 4⟩

/-- Nothing is done for a third variable. For the first, the conjunction folds to the other
operand. -/
theorem CompileContext.inline_references_refolded :
    (start {} .empty).inline bothReferences ⟨2, "z", none⟩ (.ofBool true) =
      (.ok ⟨bothReferences, false⟩, start {} .empty) ∧
    ∃ r, ((start {} .empty).inline bothReferences ⟨0, "x", none⟩ (.ofBool true)).1 = .ok r ∧
      r.changed = true ∧ r.value.Avoids ⟨0, "x", none⟩ := by
  constructor
  · refine (inline_references _ _ _ _).1 (Expr.every_connective.mpr ⟨id, ?_⟩)
    simp [Expr.RefersTo, Var.same]
  · have hx : ¬ bothReferences.Avoids ⟨0, "x", none⟩ := fun h =>
      Expr.every_var.mp ((Expr.every_connective.mp h).2 _ (List.mem_cons_self ..)) rfl
    refine ⟨_, rfl, ?_⟩
    obtain ⟨hchanged, havoids⟩ :=
      (inline_references (start {} .empty) _ _ (.ofBool true)).2 hx _ rfl
    exact ⟨hchanged, havoids (Expr.every_literal.mpr id)⟩

end QueryExpr
