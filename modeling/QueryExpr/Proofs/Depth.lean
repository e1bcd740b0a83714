import QueryExpr.Proofs.Vocabulary

/-!
# QueryExpr.Proofs.Depth

Rewriting does not nest typeswitches deeper. Substitution has fuel for the depth at which it
starts, so it never runs out.
-/

namespace QueryExpr

section
variable {n : Nat}

/-! ## Bounds on the depth -/

attribute [local simp] Expr.dispatchDepth dispatchDepthList dispatchDepthCases
  dispatchDepthTypeCases Nat.max_le

theorem dispatchDepthList_le {es : List Expr} :
    dispatchDepthList es ≤ n ↔ ∀ e ∈ es, e.dispatchDepth ≤ n := by
  induction es with
  | nil => simp
  | cons e es ih => simp [ih]

theorem dispatchDepthCases_le {cs : List (Expr × Expr)} :
    dispatchDepthCases cs ≤ n ↔ ∀ p ∈ cs, p.1.dispatchDepth ≤ n ∧ p.2.dispatchDepth ≤ n := by
  induction cs with
  | nil => simp
  | cons p cs ih => simp only [dispatchDepthCases, Nat.max_le, ih, List.forall_mem_cons]

theorem dispatchDepthTypeCases_le {cs : List (CaseHead × Expr)} :
    dispatchDepthTypeCases cs ≤ n ↔ ∀ p ∈ cs, p.2.dispatchDepth ≤ n := by
  induction cs with
  | nil => simp
  | cons p cs ih => simp only [dispatchDepthTypeCases, Nat.max_le, ih, List.forall_mem_cons]

theorem Expr.connective_depth {c : Connective} {es : List Expr} {span : Span} :
    (Expr.connective c es span).dispatchDepth ≤ n ↔ ∀ e ∈ es, e.dispatchDepth ≤ n := by
  simp [dispatchDepthList_le]

theorem Expr.switch_depth {e d : Expr} {cs : List (Expr × Expr)} {span : Span} :
    (Expr.switch e cs d span).dispatchDepth ≤ n ↔
      e.dispatchDepth ≤ n ∧ (∀ p ∈ cs, p.1.dispatchDepth ≤ n ∧ p.2.dispatchDepth ≤ n) ∧
        d.dispatchDepth ≤ n := by
  rw [Expr.dispatchDepth, Nat.max_le, Nat.max_le, dispatchDepthCases_le, and_assoc]

theorem Expr.typeswitch_depth {e : Expr} {cs : List (CaseHead × Expr)} {span : Span} :
    (Expr.typeswitch e cs span).dispatchDepth ≤ n ↔
      ∃ m, n = m + 1 ∧ e.dispatchDepth ≤ m ∧ ∀ p ∈ cs, p.2.dispatchDepth ≤ m := by
  rw [Expr.dispatchDepth]
  constructor
  · intro h
    obtain ⟨m, rfl⟩ := Nat.exists_eq_add_of_le h
    refine ⟨max e.dispatchDepth (dispatchDepthTypeCases cs) + m, by omega, by omega, ?_⟩
    exact dispatchDepthTypeCases_le.mp (by omega)
  · rintro ⟨m, rfl, he, hcs⟩
    have := dispatchDepthTypeCases_le.mpr hcs
    omega

theorem Expr.external_depth {fn : ExternalFn} {es : List Expr} {tail : Bool} {span : Span} :
    (Expr.external fn es tail span).dispatchDepth ≤ n ↔ ∀ e ∈ es, e.dispatchDepth ≤ n := by
  simp [dispatchDepthList_le]

theorem Expr.compare_depth {op : CompareOp} {l r : Expr} {span : Span} :
    (Expr.compare op l r span).dispatchDepth ≤ n ↔ l.dispatchDepth ≤ n ∧ r.dispatchDepth ≤ n := by
  simp

theorem dispatchDepthList_append (es fs : List Expr) :
    dispatchDepthList (es ++ fs) = max (dispatchDepthList es) (dispatchDepthList fs) := by
  induction es with
  | nil => simp
  | cons e es ih => simp only [List.cons_append, dispatchDepthList, ih, Nat.max_assoc]

theorem dispatchDepthCases_eq (cs : List (Expr × Expr)) :
    dispatchDepthCases cs = dispatchDepthList (cs.flatMap fun p => [p.1, p.2]) := by
  induction cs with
  | nil => rfl
  | cons p cs ih => simp [ih, Nat.max_assoc]

theorem dispatchDepthTypeCases_eq (cs : List (CaseHead × Expr)) :
    dispatchDepthTypeCases cs = dispatchDepthList (cs.map (·.2)) := by
  induction cs with
  | nil => rfl
  | cons p cs ih => simp only [dispatchDepthTypeCases, List.map_cons, dispatchDepthList, ih]

/-- Only a typeswitch is nested deeper than its parts. -/
theorem Expr.dispatchDepth_eq (e : Expr) :
    e.dispatchDepth =
      (if e.kind = .typeswitch then 1 else 0) + dispatchDepthList e.children := by
  cases e with
  | connective c es span => cases c <;> simp [kind, Connective.kind, children]
  | call fn e span => cases fn <;> simp [kind, Builtin.kind, children]
  | switch e cs d span =>
    simp [kind, children, dispatchDepthCases_eq, dispatchDepthList_append, Nat.max_assoc]
  | typeswitch e cs span => simp [kind, children, dispatchDepthTypeCases_eq]
  | _ => simp [kind, children]

theorem Expr.part_depth {d e : Expr} (hd : d ∈ e.children) :
    d.dispatchDepth ≤ e.dispatchDepth := by
  have := dispatchDepthList_le.mp (Nat.le_refl _) d hd
  rw [e.dispatchDepth_eq]
  omega

/-! ## Rules -/

theorem merge?_depth {c : Connective} {d e : Expr} {m : Noted Expr} (hd : d.dispatchDepth ≤ n)
    (h : d.merge? c e = some m) : m.value.dispatchDepth ≤ n := by
  rcases merge?_cases h with ⟨a, b, s, a', b', s', lo, hi, rfl, rfl, rfl, _, _, hm⟩ |
    ⟨b, d', s, b', e', s', rfl, rfl, rfl, _, _, _, hm⟩ |
    ⟨l, v, s, l', w, s', rfl, rfl, rfl, _, _, hm⟩
  · rw [hm]; split <;> exact Nat.zero_le n
  · rw [hm]
    split
    · exact Nat.zero_le n
    · exact hd
  · rw [hm]; exact hd

theorem OperandRule.depth {c : Connective} {span : Span} {es fs : List Expr}
    (h : OperandRule c span es fs) (hes : ∀ e ∈ es, e.dispatchDepth ≤ n) :
    ∀ e ∈ fs, e.dispatchDepth ≤ n :=
  h.forall_mem (fun _ _ he => he) (fun _ _ hd => Expr.connective_depth.mp hd) (Nat.zero_le n)
    (fun _ _ _ => Nat.zero_le n) (fun _ _ _ hd _ hm => merge?_depth hd hm) hes

theorem negated?_depth {es args : List Expr} (h : negated? es = some args)
    (hes : ∀ e ∈ es, e.dispatchDepth ≤ n) : ∀ e ∈ args, e.dispatchDepth ≤ n := by
  induction es generalizing args with
  | nil => cases h; exact hes
  | cons e es ih =>
    obtain ⟨arg, s, args', rfl, ha, rfl⟩ := negated?_cons h
    obtain ⟨he, hes⟩ := List.forall_mem_cons.mp hes
    exact List.forall_mem_cons.mpr ⟨he, ih ha hes⟩

theorem Rule.depth {checks : Checks} {e e' : Expr} (h : Rule checks e (.ok e'))
    (he : e.dispatchDepth ≤ n) : e'.dispatchDepth ≤ n := by
  cases h with
  | operands h => exact Expr.connective_depth.mpr (h.depth (Expr.connective_depth.mp he))
  | noOperand => exact Nat.zero_le n
  | decidedOperand => exact Nat.zero_le n
  | singleOperand =>
    have he' := Expr.connective_depth.mp he _ (List.mem_singleton_self _)
    exact he'
  | negations _ hn =>
    have hargs := negated?_depth hn (Expr.connective_depth.mp he)
    exact dispatchDepthList_le.mpr hargs
  | core => exact he
  | booleanLiteral => exact Nat.zero_le n
  | notLiteral => exact Nat.zero_le n
  | isBoolean => exact he
  | doubleNegation => exact he
  | castLiteral => exact Nat.zero_le n
  | castVoid => exact he
  | compareLiterals => exact Nat.zero_le n
  | rangeEmpty => exact Nat.zero_le n
  | rangeLiteral => exact Nat.zero_le n
  | positionConstant => exact Nat.zero_le n
  | switchDefault => exact (Expr.switch_depth.mp he).2.2
  | switchBranch _ hc =>
    obtain ⟨v, hv⟩ := chooseCase_branch hc
    exact ((Expr.switch_depth.mp he).2.1 _ hv).2
  | vacuous => exact Nat.zero_le n
  | typeCase hf =>
    obtain ⟨m, rfl, _, hcs⟩ := Expr.typeswitch_depth.mp he
    exact Nat.le_succ_of_le (hcs _ (List.mem_of_find?_eq_some hf))

/-! ## Rewriting -/

theorem Frame.depth {F : Frame} {e e' : Expr}
    (h : ∀ m, e.dispatchDepth ≤ m → e'.dispatchDepth ≤ m) (he : (F.plug e).dispatchDepth ≤ n) :
    (F.plug e').dispatchDepth ≤ n := by
  cases F with
  | operand c ds fs span =>
    have hes := Expr.connective_depth.mp he
    exact Expr.connective_depth.mpr (forall_mem_replace hes (h n))
  | switchOperand cs d span =>
    obtain ⟨ho, hcs, hd⟩ := Expr.switch_depth.mp he
    exact Expr.switch_depth.mpr ⟨h n ho, hcs, hd⟩
  | caseValue o bs r cs d span =>
    obtain ⟨ho, hcs, hd⟩ := Expr.switch_depth.mp he
    refine Expr.switch_depth.mpr ⟨ho, forall_mem_replace hcs fun hp => ?_, hd⟩
    exact ⟨h n hp.1, hp.2⟩
  | caseResult o bs v cs d span =>
    obtain ⟨ho, hcs, hd⟩ := Expr.switch_depth.mp he
    refine Expr.switch_depth.mpr ⟨ho, forall_mem_replace hcs fun hp => ?_, hd⟩
    exact ⟨hp.1, h n hp.2⟩
  | switchDefault o cs span =>
    obtain ⟨ho, hcs, hd⟩ := Expr.switch_depth.mp he
    exact Expr.switch_depth.mpr ⟨ho, hcs, h n hd⟩
  | typeOperand cs span =>
    obtain ⟨m, rfl, ho, hcs⟩ := Expr.typeswitch_depth.mp he
    exact Expr.typeswitch_depth.mpr ⟨m, rfl, h m ho, hcs⟩
  | typeResult o bs head cs span =>
    obtain ⟨m, rfl, ho, hcs⟩ := Expr.typeswitch_depth.mp he
    exact Expr.typeswitch_depth.mpr ⟨m, rfl, ho, forall_mem_replace hcs (h m)⟩
  | castOperand t span => exact h n he
  | callArgument fn span => exact h n he
  | left op r span =>
    obtain ⟨hl, hr⟩ := Expr.compare_depth.mp he
    exact Expr.compare_depth.mpr ⟨h n hl, hr⟩
  | right op l span =>
    obtain ⟨hl, hr⟩ := Expr.compare_depth.mp he
    exact Expr.compare_depth.mpr ⟨hl, h n hr⟩
  | rangeOperand b span => exact h n he
  | argument fn ds fs tail span =>
    have hes := Expr.external_depth.mp he
    exact Expr.external_depth.mpr (forall_mem_replace hes (h n))

/-- Typeswitches are not nested deeper after rewriting. -/
theorem Rewrites.depth {checks : Checks} {K : Known} {e : Expr} {r : Except CompileError Expr}
    (h : Rewrites checks K e r) :
    ∀ e', r = .ok e' → ∀ n, e.dispatchDepth ≤ n → e'.dispatchDepth ≤ n := by
  induction h with
  | refl => intro e' hr n he; cases hr; exact he
  | trans _ _ ih₁ ih₂ => intro e' hr n he; exact ih₂ e' hr n (ih₁ _ rfl n he)
  | rule h => intro e' hr n he; subst hr; exact h.depth he
  | inside F _ ih => intro e' hr n he; cases hr; exact Frame.depth (ih _ rfl) he
  | first => intro e' hr; cases hr
  | park => intro e' hr n he; cases hr; exact Nat.zero_le n
  | known => intro e' hr n he; cases hr; exact Nat.zero_le n
  | bound hf _ _ _ ih =>
    intro e' hr n he
    obtain ⟨m, rfl, _, hcs⟩ := Expr.typeswitch_depth.mp he
    exact Nat.le_succ_of_le (ih e' hr m (hcs _ (List.mem_of_find?_eq_some hf)))
  | boundFails => intro e' hr; cases hr

end

end QueryExpr
