import QueryExpr.Proofs.Decision
import QueryExpr.Proofs.TailCalls

/-!
# QueryExpr.Proofs.Finding

What a query finds through an index.

* `IndexPlan.Finds` — a plan finds a context.
* `Index.Honest`    — what an index must promise of its answers.
* `Expr.analysed_faithful` — the analysis keeps the value of an expression, and the plan finds
  the contexts in which it is true.
* `index_preserves` — the same in terms of evaluation, for all contexts considered.
-/

namespace QueryExpr

/-! ## Plans -/

section
variable (den : String → Context → Prop) (c : Context)

mutual

/-- A plan finds a context, if it is known which contexts a lookup finds. -/
def IndexPlan.Finds : IndexPlan → Prop
  | .lookup key => den key c
  | .intersect ps => allFind ps
  | .union ps => anyFinds ps
  | .empty => False

def allFind : List IndexPlan → Prop
  | [] => True
  | p :: ps => p.Finds ∧ allFind ps

def anyFinds : List IndexPlan → Prop
  | [] => False
  | p :: ps => p.Finds ∨ anyFinds ps

end

variable {den c}

theorem allFind_iff {ps : List IndexPlan} : allFind den c ps ↔ ∀ p ∈ ps, p.Finds den c := by
  induction ps with
  | nil => simp [allFind]
  | cons p ps ih => rw [allFind, ih, List.forall_mem_cons]

theorem anyFinds_iff {ps : List IndexPlan} : anyFinds den c ps ↔ ∃ p ∈ ps, p.Finds den c := by
  induction ps with
  | nil => simp [anyFinds]
  | cons p ps ih => rw [anyFinds, ih, List.exists_mem_cons_iff]

end

theorem lowerAll_plan (index : Index) (es : List Expr) :
    (lowerAll index es).plan = es.map fun e => (e.lower index).plan := by
  induction es with
  | nil => rfl
  | cons e es ih => rw [lowerAll, List.map_cons, ← ih]

/-! ## Expressions without scores -/

/-- Expressions without scores in literals, and with functions whose results have none. -/
def Vocabulary.unscored (L : Library) : Vocabulary where
  var _ := True
  fn f := ∀ vs v, L f.name vs = some v → v.Unscored
  cases _ := True
  left _ _ := True
  target _ := True
  value := Value.Unscored
  known _ := Value.Unscored
  parked _ := True

section
variable {checks : Checks} {L : Library}

theorem Vocabulary.unscored_closed : (Vocabulary.unscored L).Closed checks where
  empty := Value.plain_nil.unscored
  ofBool := Value.unscored_ofBool
  truth hv hb := by
    rw [hv.ebv hb]
    exact Value.unscored_ofBool _
  append hv hw := List.forall_mem_append.mpr ⟨hv, hw⟩
  cast _ _ hw := Value.cast_unscored hw
  parked _ := trivial
  known h := h
  binds _ _ _ _ hv := hv
  left _ _ _ _ := trivial
  case _ _ _ _ := trivial

theorem Vocabulary.unscored_yields : (Vocabulary.unscored L).YieldsOnly L Value.Unscored where
  value := id
  fn hf hv := hf _ _ hv
  cast _ hw := Value.cast_unscored (toOption_eq_some_iff.mp hw)
  ofBool := Value.unscored_ofBool

theorem keptByAnalysis_unscored : KeptByAnalysis (Vocabulary.unscored L).Allows where
  connective _ := trivial
  false := Value.unscored_ofBool false
  boolean hd he := by
    have hcore := Expr.Every.part he (asCondition_occursIn _)
    rcases optimizeBoolean_eq_ok hd with ⟨v, b, hv, hb, rfl⟩ | ⟨rfl, -⟩ | ⟨rfl, -⟩
    · rw [hv] at hcore
      have hclosed : (Vocabulary.unscored L).Closed fun _ _ _ => .ok () :=
        Vocabulary.unscored_closed
      exact Expr.every_literal.mpr (hclosed.truth (Expr.every_literal.mp hcore) hb)
    · exact hcore
    · exact Expr.every_call.mpr ⟨trivial, hcore⟩

theorem Expr.markTail_over {e : Expr} (he : e.Over (.unscored L)) :
    e.markTail.Over (.unscored L) := by
  refine Expr.markTail_every (fun n hn => ?_) he
  cases n <;> exact hn

end

/-! ## Truth -/

section
variable {σ : Type}

/-- Whether an expression is true in a context; `none` stands for every error. -/
def Expr.truthIn (h : Host σ) (e : Expr) (c : Context) (s : σ) : Option Bool :=
  (e.ebv h c s).1.toOption.map (·.value)

/-- An expression has an effective boolean value, and its value is of its static type. -/
def Expr.Decides (h : Host σ) (e : Expr) (c : Context) : Prop :=
  ∀ s, (e.truthIn h c s).isSome ∧
    ∀ v, (e.eval h c s).1 = .ok v → e.type.admits v = true

/-- An operand of an expression, at any depth of connectives in connectives. -/
inductive Expr.IsOperandOf : Expr → Expr → Prop where
  | here {d : Expr} {k : Connective} {es : List Expr} {span : Span} :
      d ∈ es → IsOperandOf d (.connective k es span)
  | deeper {d e : Expr} {k : Connective} {es : List Expr} {span : Span} :
      e ∈ es → IsOperandOf d e → IsOperandOf d (.connective k es span)

variable {L : Library} {h : Host σ} {c : Context}

theorem Expr.truthIn_eq (hh : h.Steady L) {e : Expr} (he : e.Over (.unscored L))
    (hc : c.Only Value.Unscored) (s : σ) : e.truthIn h c s = e.test? L c := by
  have hval := Expr.eval_unscored hh Vocabulary.unscored_yields he hc s
  unfold Expr.truthIn Expr.ebv Expr.test?
  rcases outcome_cases hval with ⟨t, s', hx, ho⟩ | ⟨v, s', hx, ho⟩
  · rw [hx, ho]; rfl
  · rw [hx, ho]; exact v.ebv_toOption e.span

/-- What the hypothesis on operands says of values. -/
def Expr.Fits (L : Library) (c : Context) (e : Expr) : Prop :=
  ∃ v, e.value? L c = some v ∧ (∃ b, v.test? = some b) ∧ e.type.admits v = true ∧ v.Unscored

theorem Expr.Fits.truth {e : Expr} (he : e.Fits L c) : ∃ b, e.test? L c = some b := by
  obtain ⟨v, hv, ⟨b, hb⟩, -⟩ := he
  exact ⟨b, Option.bind_eq_some_iff.mpr ⟨v, hv, hb⟩⟩

theorem Expr.Decides.fits (hh : h.Steady L) {e : Expr} (he : e.Over (.unscored L))
    (hc : c.Only Value.Unscored) (s : σ) (hd : e.Decides h c) : e.Fits L c := by
  obtain ⟨hsome, hadm⟩ := hd s
  rw [Expr.truthIn_eq hh he hc] at hsome
  obtain ⟨b, hb⟩ := Option.isSome_iff_exists.mp hsome
  obtain ⟨v, hv, hvb⟩ := Option.bind_eq_some_iff.mp hb
  have hval := Expr.eval_unscored hh Vocabulary.unscored_yields he hc s
  rw [hv] at hval
  exact ⟨v, hv, ⟨b, hvb⟩, hadm v (toOption_eq_some_iff.mp hval),
    Expr.value?_only Vocabulary.unscored_yields he hc hv⟩

end

/-! ## Operands -/

/-- The operands of a connective are not empty, and neither connectives of its kind nor calls of
`boolean`. -/
def Expr.IsFlat : Expr → Prop
  | .connective k es _ => es ≠ [] ∧ ∀ e ∈ es, e.kind ≠ k.kind ∧ e.kind ≠ .boolean
  | _ => True

theorem Expr.markTail_kind (e : Expr) : e.markTail.kind = e.kind := by
  cases e <;> rfl

theorem Expr.Settled.flat {e : Expr} (he : e.Settled) : e.Every Expr.IsFlat := by
  refine Expr.Every.imp (fun n hn => ?_) he
  cases n with
  | connective k es span =>
    refine ⟨?_, hn.flat⟩
    rintro rfl
    exact absurd hn.several (by simp)
  | _ => trivial

theorem Expr.markTail_flat {e : Expr} (he : e.Every Expr.IsFlat) :
    e.markTail.Every Expr.IsFlat := by
  refine Expr.markTail_every (fun n hn => ?_) he
  cases n with
  | connective k es span =>
    refine ⟨fun hnil => ?_, fun d hd => ?_⟩
    · rcases List.eq_nil_or_concat es with rfl | ⟨ds, m, rfl⟩
      · exact hn.1 rfl
      · rw [List.concat_eq_append, markTailLast_concat] at hnil
        simp at hnil
    · obtain ⟨e, he, rfl | rfl⟩ := mem_markTailLast hd
      · exact hn.2 d he
      · rw [e.markTail_kind]; exact hn.2 e he
  | _ => trivial

/-! ## Faithful analysis -/

section
variable {σ : Type} {L : Library} {h : Host σ} {S : Context → Prop}
  {den : String → Context → Prop} {index : Index} {reorder : Bool} {c : Context}

/-- What an index must promise. An operand of which it reports that nothing matches is false in
all contexts considered, and of these a lookup finds those in which the operand is true. -/
structure Index.Honest (index : Index) (L : Library) (h : Host σ) (S : Context → Prop)
    (den : String → Context → Prop) : Prop where
  none_match : ∀ e info, e.Over (.unscored L) → index.info e = some info →
    info.selectivity = 0 → ∀ c s, S c → e.truthIn h c s = some false
  lookup : ∀ e c s, e.Over (.unscored L) → S c →
    ((index.lookup e).Finds den c ↔ e.truthIn h c s = some true)

/-- The same promise about one context, in terms of values. -/
structure Index.HonestIn (index : Index) (L : Library) (den : String → Context → Prop)
    (c : Context) : Prop where
  none_match : ∀ e info, e.Over (.unscored L) → index.info e = some info →
    info.selectivity = 0 → e.test? L c = some false
  lookup : ∀ e, e.Over (.unscored L) →
    ((index.lookup e).Finds den c ↔ e.test? L c = some true)

theorem Index.Honest.at (hi : index.Honest L h S den) (hh : h.Steady L) (hS : S c)
    (hc : c.Only Value.Unscored) (s : σ) : index.HonestIn L den c where
  none_match e info he hinfo hz := by
    rw [← Expr.truthIn_eq hh he hc s]
    exact hi.none_match e info he hinfo hz c s hS
  lookup e he := by
    rw [← Expr.truthIn_eq hh he hc s]
    exact hi.lookup e c s he hS

/-- What the analysis makes of an expression has its value, is estimated to have no match only if
it is false, and is found where it is true. -/
structure Faithful (L : Library) (den : String → Context → Prop) (index : Index) (c : Context)
    (e : Expr) (p : Expr × Nat) : Prop where
  value : p.1.value? L c = e.value? L c
  none_match : p.2 = 0 → e.test? L c = some false
  finds : (p.1.lower index).plan.Finds den c ↔ e.test? L c = some true

theorem Faithful.test {e : Expr} {p : Expr × Nat} (hp : Faithful L den index c e p) :
    p.1.test? L c = e.test? L c := by
  unfold Expr.test?
  rw [hp.value]

theorem test?_of_same_false {v : Value} (h : v.same (.ofBool false) = true) :
    v.test? = some false := by
  match v with
  | [] => cases h
  | [i] =>
    simp only [Value.ofBool, Value.same, Bool.and_true] at h
    cases i with
    | bool b =>
      simp only [Item.same, Truth.same, Truth.plain, Bool.and_eq_true, beq_iff_eq] at h
      exact congrArg some h.1
    | _ => cases h
  | _ :: _ :: _ => simp [Value.ofBool, Value.same] at h

theorem lower_literal (hi : index.HonestIn L den c) {v : Value} (hv : v.Unscored) :
    ((Expr.literal v).lower index).plan.Finds den c ↔ v.test? = some true := by
  rw [Expr.lower]
  split
  · rename_i hfalse
    refine iff_of_false id ?_
    rcases Bool.or_eq_true_iff.mp hfalse with hnil | hsame
    · rw [List.isEmpty_iff.mp hnil]; exact fun h => by cases h
    · rw [test?_of_same_false hsame]; exact fun h => by cases h
  · exact hi.lookup _ (Expr.every_literal.mpr hv)

/-- A connective of operands with a truth is true if all operands are, or if one is. -/
theorem truth?_conjunction {es : List Expr} (h : ∀ e ∈ es, ∃ b, e.test? L c = some b) :
    truth? L .conjunction es c = some true ↔ ∀ e ∈ es, e.test? L c = some true := by
  have hfalse (e : Expr) (he : e ∈ es) : ¬ e.test? L c = some false ↔ e.test? L c = some true := by
    obtain ⟨b, hb⟩ := h e he
    rw [hb]
    cases b <;> simp
  rw [truth?_eq_any h]
  simp only [Connective.absorbing, Option.some.injEq, beq_iff_eq, List.any_eq_false]
  exact forall₂_congr hfalse

theorem truth?_disjunction {es : List Expr} (h : ∀ e ∈ es, ∃ b, e.test? L c = some b) :
    truth? L .disjunction es c = some true ↔ ∃ e ∈ es, e.test? L c = some true := by
  rw [truth?_eq_any h]
  simp [Connective.absorbing]

/-- The analysis leaves a conjunction, or leaves the operand of a disjunction as it is. -/
theorem Expr.analysed_operand {e : Expr} (h : e.Covered index reorder)
    (he : e.kind ≠ .disjunction) :
    (∃ es span, (e.analysed index reorder).1 = .connective .conjunction es span) ∨
      (e.analysed index reorder).1 = e := by
  cases e with
  | connective k es span =>
    cases k with
    | conjunction => rw [(analysed_conjunction h).2]; exact .inl ⟨_, _, rfl⟩
    | disjunction => exact absurd rfl he
  | _ =>
    obtain ⟨info, -, hval⟩ := analysed_other h (by simp)
    rw [hval]
    exact .inr rfl

theorem Faithful.other (hi : index.HonestIn L den c) {e : Expr} (he : e.Over (.unscored L))
    (h : e.Covered index reorder) (hno : ∀ k es span, e ≠ .connective k es span) :
    Faithful L den index c e (e.analysed index reorder) := by
  obtain ⟨info, hinfo, hval⟩ := analysed_other h hno
  rw [hval]
  refine ⟨rfl, hi.none_match e info he hinfo, ?_⟩
  have hlower : (e.lower index).plan = index.lookup e := by
    cases e with
    | connective k es span => exact absurd rfl (hno k es span)
    | literal v => cases h
    | _ => rfl
  rw [hlower]
  exact hi.lookup e he

theorem Faithful.conjunction {es : List Expr} {span : Span}
    (h : (Expr.connective .conjunction es span).Covered index reorder) (hne : es ≠ [])
    (htruth : ∀ e ∈ es, ∃ b, e.test? L c = some b)
    (hes : ∀ e ∈ es, Faithful L den index c e (e.analysed index reorder)) :
    Faithful L den index c (.connective .conjunction es span)
      ((Expr.connective .conjunction es span).analysed index reorder) := by
  rw [(analysed_conjunction h).2]
  have hperm := orderOperands_perm reorder (es.map (·.analysed index reorder))
  revert hperm
  generalize orderOperands reorder (es.map (·.analysed index reorder)) = qs
  intro hperm
  have hmem (d : Expr) : d ∈ qs.map (·.1) ↔ ∃ e ∈ es, (e.analysed index reorder).1 = d := by
    rw [(hperm.map _).mem_iff, List.map_map, List.mem_map]
    rfl
  refine ⟨?_, fun hzero => ?_, ?_⟩
  · rw [value?_connective, value?_connective]
    refine congrArg _ (truth?_congr (fun d hd => ?_) htruth ⟨?_, ?_⟩)
    · obtain ⟨e, he, rfl⟩ := (hmem d).mp hd
      rw [(hes e he).test]
      exact htruth e he
    · rintro ⟨d, hd, ht⟩
      obtain ⟨e, he, rfl⟩ := (hmem d).mp hd
      exact ⟨e, he, (hes e he).test ▸ ht⟩
    · rintro ⟨e, he, ht⟩
      exact ⟨_, (hmem _).mpr ⟨e, he, rfl⟩, (hes e he).test.trans ht⟩
  · have hqs : qs.map (·.2) ≠ [] := by
      intro hnil
      rw [List.map_eq_nil_iff.mp hnil] at hperm
      exact hne (List.map_eq_nil_iff.mp hperm.nil_eq.symm)
    obtain ⟨p, hp, hp0⟩ := List.mem_map.mp ((leastEstimate_eq_zero hqs).mp hzero)
    obtain ⟨e, he, rfl⟩ := List.mem_map.mp (hperm.mem_iff.mp hp)
    have hfalse := (hes e he).none_match hp0
    rw [test?_connective]
    cases ht : truth? L .conjunction es c with
    | none => rw [truth?_eq_any htruth] at ht; cases ht
    | some b =>
      cases b with
      | false => rfl
      | true =>
        rw [(truth?_conjunction htruth).mp ht e he] at hfalse
        cases hfalse
  · rw [test?_connective, truth?_conjunction htruth, Expr.lower, IndexPlan.Finds, allFind_iff,
      lowerAll_plan, List.forall_mem_map]
    constructor
    · exact fun hall e he => (hes e he).finds.mp (hall _ ((hmem _).mpr ⟨e, he, rfl⟩))
    · intro hall d hd
      obtain ⟨e, he, rfl⟩ := (hmem d).mp hd
      exact (hes e he).finds.mpr (hall e he)

/-- A value of one boolean is all that there is to its truth. -/
theorem Expr.Fits.ofBool {e : Expr} (he : e.Fits L c) (ht : e.type = .booleanOne) {b : Bool}
    (hb : e.test? L c = some b) : e.value? L c = some (.ofBool b) := by
  obtain ⟨v, hv, -, hadm, hun⟩ := he
  rw [ht] at hadm
  obtain ⟨t, rfl⟩ := SeqType.booleanOne_admits hadm
  rw [Truth.eq_plain (Value.unscored_singleton.mp hun)] at hv
  rw [Expr.test?, hv] at hb
  cases hb
  exact hv

/-- The only operand that a disjunction keeps, as a boolean. -/
theorem Faithful.boolean (hi : index.HonestIn L den c) {e d : Expr} {span : Span}
    (h : e.Covered index reorder) (hkind : e.kind ≠ .disjunction ∧ e.kind ≠ .boolean)
    (hover : e.Over (.unscored L)) (hfit : e.Fits L c)
    (he : Faithful L den index c e (e.analysed index reorder))
    (hd : (optimizeBoolean (e.analysed index reorder).1 span).value = .ok d) {b : Bool}
    (hb : e.test? L c = some b) :
    d.value? L c = some (.ofBool b) ∧ ((d.lower index).plan.Finds den c ↔ b = true) := by
  have hb' : (e.analysed index reorder).1.test? L c = some b := he.test.trans hb
  have hfinds : ((e.analysed index reorder).1.lower index).plan.Finds den c ↔ b = true := by
    rw [he.finds, hb, Option.some.injEq]
  have hoperand := Expr.analysed_operand h hkind.1
  have hbare : (e.analysed index reorder).1.kind ≠ .boolean ∧
      ∀ v, (e.analysed index reorder).1 ≠ .literal v := by
    rcases hoperand with ⟨fs, s, hval⟩ | hval
    · rw [hval]
      exact ⟨nofun, nofun⟩
    · rw [hval]
      refine ⟨hkind.2, ?_⟩
      -- a literal is not covered
      rintro v rfl
      cases h
  rcases optimizeBoolean_bare hbare hd with ⟨rfl, ht⟩ | ⟨rfl, ht⟩
  · refine ⟨?_, hfinds⟩
    rcases hoperand with ⟨fs, s, hval⟩ | hval
    · rw [hval, test?_connective] at hb'
      rw [hval, value?_connective, hb']
      rfl
    · rw [hval] at ht hb' ⊢
      exact hfit.ofBool ht hb'
  · rcases hoperand with ⟨fs, s, hval⟩ | hval
    · rw [hval] at ht; exact absurd rfl ht
    · rw [hval] at hb' ⊢
      refine ⟨by rw [value?_call, hb']; rfl, ?_⟩
      have hcall : (Expr.call .boolean e span).Over (.unscored L) :=
        Expr.every_call.mpr ⟨trivial, hover⟩
      refine (hi.lookup _ hcall).trans ?_
      rw [test?_boolean, hb', Option.some.injEq]

theorem lower_disjunction {es : List Expr} {span : Span} (h : 2 ≤ es.length) :
    ((Expr.connective .disjunction es span).lower index).plan =
      .union (es.map fun e => (e.lower index).plan) := by
  match es with
  | d :: e :: es =>
    rw [Expr.lower, lowerAll_plan]
    simp

/-- What a disjunction drops is false. -/
theorem truth?_pruned {es : List Expr} (htruth : ∀ e ∈ es, ∃ b, e.test? L c = some b)
    (hes : ∀ e ∈ es, Faithful L den index c e (e.analysed index reorder)) :
    truth? L .disjunction (pruneOperands (es.map (·.analysed index reorder))) c =
      truth? L .disjunction es c := by
  refine truth?_congr (fun d hd => ?_) htruth ⟨?_, ?_⟩
  · obtain ⟨e, he, -, rfl⟩ := mem_pruneOperands.mp hd
    rw [(hes e he).test]
    exact htruth e he
  · rintro ⟨d, hd, ht⟩
    obtain ⟨e, he, -, rfl⟩ := mem_pruneOperands.mp hd
    exact ⟨e, he, (hes e he).test ▸ ht⟩
  · rintro ⟨e, he, ht⟩
    refine ⟨_, mem_pruneOperands.mpr ⟨e, he, fun hzero => ?_, rfl⟩, (hes e he).test.trans ht⟩
    rw [(hes e he).none_match hzero] at ht
    cases ht

/-- What becomes of the kept operands has the truth of their disjunction, and is found where this is
true. -/
theorem Faithful.kept (hi : index.HonestIn L den c) {es ks : List Expr} {r : Expr} {span : Span}
    (hkept : Kept span ks r) (hks : ∀ d ∈ ks, ∃ e ∈ es, (e.analysed index reorder).1 = d)
    (hcov : ∀ e ∈ es, e.Covered index reorder)
    (hflat : ∀ e ∈ es, e.kind ≠ .disjunction ∧ e.kind ≠ .boolean)
    (hover : ∀ e ∈ es, e.Over (.unscored L)) (hfit : ∀ e ∈ es, e.Fits L c)
    (hes : ∀ e ∈ es, Faithful L den index c e (e.analysed index reorder)) :
    r.value? L c = (truth? L .disjunction ks c).map .ofBool ∧
      ((r.lower index).plan.Finds den c ↔ truth? L .disjunction ks c = some true) := by
  have htruth (d : Expr) (hd : d ∈ ks) : ∃ b, d.test? L c = some b := by
    obtain ⟨e, he, rfl⟩ := hks d hd
    rw [(hes e he).test]
    exact (hfit e he).truth
  cases hkept with
  | none =>
    refine ⟨rfl, (lower_literal hi (Value.unscored_ofBool false)).trans ?_⟩
    exact .rfl
  | @one k d hd =>
    obtain ⟨e, he, rfl⟩ := hks k (List.mem_singleton_self k)
    obtain ⟨b, hb⟩ := (hfit e he).truth
    have hone : truth? L .disjunction [(e.analysed index reorder).1] c = some b := by
      rw [truth?_cons, (hes e he).test, hb]
      cases b <;> rfl
    rw [hone, Option.some.injEq]
    exact (hes e he).boolean hi (hcov e he) (hflat e he) (hover e he) (hfit e he) hd hb
  | several hlen =>
    refine ⟨value?_connective _ _, ?_⟩
    rw [lower_disjunction hlen, IndexPlan.Finds, anyFinds_iff, truth?_disjunction htruth]
    constructor
    · rintro ⟨p, hp, hfind⟩
      obtain ⟨d, hd, rfl⟩ := List.mem_map.mp hp
      obtain ⟨e, he, rfl⟩ := hks d hd
      exact ⟨_, hd, (hes e he).test.trans ((hes e he).finds.mp hfind)⟩
    · rintro ⟨d, hd, ht⟩
      obtain ⟨e, he, rfl⟩ := hks d hd
      exact ⟨_, List.mem_map_of_mem hd, (hes e he).finds.mpr ((hes e he).test ▸ ht)⟩

theorem Faithful.disjunction (hi : index.HonestIn L den c) {es : List Expr} {span : Span}
    (h : (Expr.connective .disjunction es span).Covered index reorder)
    (hflat : ∀ e ∈ es, e.kind ≠ .disjunction ∧ e.kind ≠ .boolean)
    (hover : ∀ e ∈ es, e.Over (.unscored L)) (hfit : ∀ e ∈ es, e.Fits L c)
    (hes : ∀ e ∈ es, Faithful L den index c e (e.analysed index reorder)) :
    Faithful L den index c (.connective .disjunction es span)
      ((Expr.connective .disjunction es span).analysed index reorder) := by
  obtain ⟨hcov, hsum, hkept⟩ := analysed_disjunction h
  have heq := truth?_pruned (fun e he => (hfit e he).truth) hes
  obtain ⟨hvalue, hfinds⟩ := Faithful.kept hi hkept (fun d hd => by
    obtain ⟨e, he, -, hval⟩ := mem_pruneOperands.mp hd
    exact ⟨e, he, hval⟩) hcov hflat hover hfit hes
  rw [heq] at hvalue hfinds
  refine ⟨by rw [hvalue, value?_connective], fun hz => ?_, by rw [hfinds, test?_connective]⟩
  -- With an estimate of zero nothing is kept.
  have hnone : pruneOperands (es.map (·.analysed index reorder)) = [] := by
    refine List.eq_nil_iff_forall_not_mem.mpr fun d hd => ?_
    obtain ⟨e, he, hne, -⟩ := mem_pruneOperands.mp hd
    exact hne (sumEstimates_eq_zero.mp (hsum ▸ hz) _ (List.mem_map_of_mem (List.mem_map_of_mem he)))
  rw [test?_connective, ← heq, hnone]
  rfl

/-- The analysis is faithful wherever all operands have a truth and are of their types. -/
theorem Expr.analysed_faithful (hi : index.HonestIn L den c) {e : Expr}
    (h : e.Covered index reorder) (he : e.Over (.unscored L)) (hflat : e.Every Expr.IsFlat)
    (hfit : ∀ d : Expr, d.IsOperandOf e → d.Fits L c) :
    Faithful L den index c e (e.analysed index reorder) := by
  induction e with
  | connective k es span ih =>
    obtain ⟨⟨hne, hkinds⟩, hflats⟩ := Expr.every_connective.mp hflat
    obtain ⟨-, hover⟩ := Expr.every_connective.mp he
    have hfits : ∀ e ∈ es, e.Fits L c := fun e hm => hfit e (.here hm)
    cases k with
    | conjunction =>
      obtain ⟨hcov, -⟩ := analysed_conjunction h
      refine Faithful.conjunction h hne (fun e hm => (hfits e hm).truth) fun e hm =>
        ih e hm (hcov e hm) (hover e hm) (hflats e hm) fun d hd => hfit d (.deeper hm hd)
    | disjunction =>
      obtain ⟨hcov, -⟩ := analysed_disjunction h
      exact Faithful.disjunction hi h hkinds hover hfits fun e hm =>
        ih e hm (hcov e hm) (hover e hm) (hflats e hm) fun d hd => hfit d (.deeper hm hd)
  | _ => exact Faithful.other hi he h (by simp)

theorem Expr.IsOperandOf.occursIn {d e : Expr} (h : d.IsOperandOf e) : d.OccursIn e := by
  induction h with
  | here hd => exact .child hd (.self _)
  | deeper he _ ih => exact .child he ih

/-- If an index covers a compiled root, what is left of the root yields the same in all contexts
considered, and the plan finds those in which the root is true. If an index does not cover the
root, a query has the root that it has without an index. -/
theorem index_preserves {ctx : CompileContext} {checks : Checks} {e r root : Expr}
    (hh : h.Steady L) (he : e.Over (.unscored L)) (hr : (ctx.compile checks e).1 = .ok r)
    (hroot : root ∈ [r, r.markTail]) (hS : ∀ c, S c → c.Only Value.Unscored)
    (hop : ∀ c, S c → ∀ d : Expr, d.IsOperandOf root → d.Decides h c)
    (hi : index.Honest L h S den) (reorder : Bool) :
    (root.Covered index reorder → ∀ c s, S c →
      ((root.analysed index reorder).1.eval h c s).1 = (root.eval h c s).1 ∧
      (((root.analysed index reorder).1.lower index).plan.Finds den c ↔
        root.truthIn h c s = some true)) ∧
    (¬ r.markTail.Covered index ctx.config.index.reorder →
      ∃ q q', (ctx.compileQuery checks (some index) e).1 = .ok q ∧
        (ctx.compileQuery checks none e).1 = .ok q' ∧ q.value.root = q'.value.root) := by
  have hval : (e.compile checks).value = .ok r := hr
  have hover : root.Over (.unscored L) ∧ root.Every Expr.IsFlat := by
    have hrew : Rewrites checks [] e (.ok r) := hval ▸ e.compile_reaches.rewrites
    have hrover := hrew.over Vocabulary.unscored_closed nofun he r rfl
    have hrflat := (Expr.compile_settled hval).flat
    rcases List.mem_cons.mp hroot with rfl | hroot
    · exact ⟨hrover, hrflat⟩
    · rw [List.mem_singleton.mp hroot]
      exact ⟨Expr.markTail_over hrover, Expr.markTail_flat hrflat⟩
  constructor
  · intro hcov c s hc
    have hfit (d : Expr) (hd : d.IsOperandOf root) : d.Fits L c :=
      (hop c hc d hd).fits hh (hover.1.part hd.occursIn) (hS c hc) s
    have hf := Expr.analysed_faithful (hi.at hh hc (hS c hc) s) hcov hover.1 hover.2 hfit
    refine ⟨?_, by rw [Expr.truthIn_eq hh hover.1 (hS c hc)]; exact hf.finds⟩
    have hleft := Expr.eval_unscored hh Vocabulary.unscored_yields
      (Expr.analysed_every keptByAnalysis_unscored hcov hover.1) (hS c hc) s
    have hright := Expr.eval_unscored hh Vocabulary.unscored_yields hover.1 (hS c hc) s
    by_cases hother : ∀ k es span, root ≠ .connective k es span
    · obtain ⟨info, -, hsame⟩ := analysed_other hcov hother
      rw [hsame]
    · -- a connective of operands with a truth has a value
      obtain ⟨k, es, span, rfl⟩ : ∃ k es span, root = .connective k es span := by
        simpa only [not_forall, not_not] using hother
      have htruth (d : Expr) (hd : d ∈ es) : ∃ b, d.test? L c = some b := (hfit d (.here hd)).truth
      rw [hf.value] at hleft
      rw [value?_connective, truth?_eq_any htruth] at hleft hright
      rw [toOption_eq_some_iff.mp hleft, toOption_eq_some_iff.mp hright]
  · intro hno
    obtain ⟨q, hq, ⟨i, hi, -, hcov, -⟩ | ⟨-, hroot⟩⟩ := compileQuery_cases hr (some index)
    · cases hi
      exact absurd hcov hno
    · obtain ⟨q', hq', ⟨i, hi, -⟩ | ⟨-, hroot'⟩⟩ := compileQuery_cases hr none
      · cases hi
      · exact ⟨q, q', hq, hq', by rw [hroot, hroot']⟩

end

/-- A disjunction of a variable and a call, both declared as one boolean. -/
def variableOrCall : Expr :=
  .connective .disjunction
    [.var ⟨0, "x", some .booleanOne⟩ .unknown,
      .external ⟨0, "g", .booleanOne, true⟩ [] false .unknown] .unknown

/-- All functions yield false. -/
def allFalse : Library := fun _ _ => some (.ofBool false)

/-- An index for one context. It knows that calls have no match. -/
def indexOf (c : Context) : Index where
  info
    | .var _ _ => some ⟨1, false⟩
    | .external _ [] _ _ => some ⟨0, false⟩
    | _ => none
  lookup e := if e.test? allFalse c = some true then .lookup "all" else .empty

theorem indexOf_honest {c : Context} (hc : c.Only Value.Unscored) :
    (indexOf c).Honest allFalse allFalse.host (· = c) fun _ _ => True where
  none_match e info he hinfo hz c' s hc' := by
    subst hc'
    rw [Expr.truthIn_eq (Library.host_steady _) he hc]
    cases e with
    | var x span => cases hinfo; cases hz
    | external fn es tail span =>
      cases es with
      | nil => rfl
      | cons => cases hinfo
    | _ => cases hinfo
  lookup e c' s he hc' := by
    subst hc'
    rw [Expr.truthIn_eq (Library.host_steady _) he hc]
    show (ite _ _ _ : IndexPlan).Finds _ _ ↔ _
    split
    · rename_i ht; exact iff_of_true trivial ht
    · rename_i ht; exact iff_of_false id ht

theorem variableOrCall_over : variableOrCall.Over (.unscored allFalse) := by
  refine Expr.every_connective.mpr ⟨trivial, List.forall_mem_cons.mpr
    ⟨Expr.every_var.mpr trivial, List.forall_mem_singleton.mpr
      (Expr.every_external.mpr ⟨fun _ _ h => ?_, nofun⟩)⟩⟩
  cases h
  exact Value.unscored_ofBool false

theorem variableOrCall_compiles : ((CompileContext.start {} .empty).compile
    (fun _ _ _ => .ok ()) variableOrCall).1 = .ok variableOrCall := rfl

theorem bound_only {v : Value} (hv : v.Unscored) :
    ((Context.empty true).bind 0 v).Only Value.Unscored :=
  Context.Only.bind (fun _ _ h => by cases h) 0 hv

theorem variableOrCall_operands {P : Expr → Prop}
    (hx : P (.var ⟨0, "x", some .booleanOne⟩ .unknown))
    (hg : P (.external ⟨0, "g", .booleanOne, true⟩ [] false .unknown)) :
    ∀ d : Expr, d.IsOperandOf variableOrCall → P d := by
  intro d hd
  cases hd with
  | here hd =>
    rcases List.mem_cons.mp hd with rfl | hd
    · exact hx
    · rw [List.mem_singleton.mp hd]; exact hg
  | deeper he hd =>
    rcases List.mem_cons.mp he with rfl | he
    · cases hd
    · rw [List.mem_singleton.mp he] at hd; cases hd

/-- With true for the variable. -/
theorem index_preserves_variable :
    let c := (Context.empty true).bind 0 (.ofBool true)
    ((variableOrCall.analysed (indexOf c) true).1.eval allFalse.host c ()).1 = .ok (.ofBool true) ∧
      ((variableOrCall.analysed (indexOf c) true).1.lower (indexOf c)).plan.Finds
        (fun _ _ => True) c := by
  intro c
  have hc : c.Only Value.Unscored := bound_only (Value.unscored_ofBool true)
  have hop : ∀ c', c' = c → ∀ d : Expr, d.IsOperandOf variableOrCall →
      d.Decides allFalse.host c' := by
    rintro _ rfl
    refine variableOrCall_operands (fun s => ⟨rfl, fun v hv => ?_⟩) fun s => ⟨rfl, fun v hv => ?_⟩
    · cases hv; rfl
    · cases hv; rfl
  have hkeep := (index_preserves (Library.host_steady _) variableOrCall_over
    variableOrCall_compiles (List.mem_cons_self ..) (by rintro _ rfl; exact hc) hop
    (indexOf_honest hc) true).1 rfl c () rfl
  exact ⟨hkeep.1.trans rfl, hkeep.2.mpr rfl⟩

/-- One for the variable, which is declared as a boolean, has an effective boolean value. But the
variable, once it stands alone, yields the one and not its truth. -/
theorem index_leaves_number :
    let c := (Context.empty true).bind 0 [.integer 1]
    (indexOf c).Honest allFalse allFalse.host (· = c) (fun _ _ => True) ∧
      ((CompileContext.start {} .empty).compile (fun _ _ _ => .ok ()) variableOrCall).1 =
        .ok variableOrCall ∧
      (∀ d : Expr, d.IsOperandOf variableOrCall → ∀ s, (d.truthIn allFalse.host c s).isSome) ∧
      variableOrCall.Covered (indexOf c) true ∧
      variableOrCall.eval allFalse.host c () = (.ok (.ofBool true), ()) ∧
      (variableOrCall.analysed (indexOf c) true).1.eval allFalse.host c () =
        (.ok [.integer 1], ()) := by
  intro c
  refine ⟨indexOf_honest (bound_only (Value.unscored_singleton.mpr trivial)), rfl, ?_, rfl, rfl,
    rfl⟩
  exact variableOrCall_operands (fun _ => rfl) fun _ => rfl

end QueryExpr
