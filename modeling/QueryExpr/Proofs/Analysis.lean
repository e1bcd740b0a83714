import QueryExpr.Proofs.Node
import QueryExpr.Query

/-!
# QueryExpr.Proofs.Analysis

What the analysis by an index leaves of an expression that the index can answer.

* `Expr.analysed`        — what is left, with the estimate.
* `orderOperands_cases`  — the order of the operands of a conjunction.
* `analysed_conjunction`, `analysed_disjunction`, `analysed_other` — the analysis of one node, by
  the analysis of its operands.
* `compileQuery_cases`   — what a query takes over of it.
-/

namespace QueryExpr

/-! ## Order -/

/-- An operand that goes to the front is the first without a match. -/
theorem bringToFront_eq_some {ps qs : List (Expr × Nat)} (h : bringToFront ps = some qs) :
    ∃ as p bs, ps = as ++ p :: bs ∧ p.2 = 0 ∧ (∀ a ∈ as, a.2 ≠ 0) ∧ qs = p :: (as ++ bs) := by
  unfold bringToFront at h
  split at h
  · cases h
  · rename_i i hi
    obtain ⟨hlt, hp, hfirst⟩ := List.findIdx?_eq_some_iff_getElem.mp hi
    simp only [List.getElem?_eq_getElem hlt, Option.map_some, Option.some.injEq] at h
    refine ⟨ps.take i, ps[i], ps.drop (i + 1), ?_, by simpa using hp, fun a ha => ?_, ?_⟩
    · rw [List.getElem_cons_drop, List.take_append_drop]
    · obtain ⟨j, hj, rfl⟩ := List.mem_take_iff_getElem.mp ha
      simpa using hfirst j (by omega)
    · rw [← h, List.eraseIdx_eq_take_drop_succ]

theorem bringToFront_eq_none {ps : List (Expr × Nat)} (h : bringToFront ps = none) :
    ∀ p ∈ ps, p.2 ≠ 0 := by
  unfold bringToFront at h
  split at h
  · rename_i hi
    intro p hp
    simpa using List.findIdx?_eq_none_iff.mp hi p hp
  · rename_i i hi
    obtain ⟨hlt, -⟩ := List.findIdx?_eq_some_iff_getElem.mp hi
    simp [List.getElem?_eq_getElem hlt] at h

/-- The order of the operands of a conjunction. -/
theorem orderOperands_cases (reorder : Bool) (ps : List (Expr × Nat)) :
    (∃ as p bs, ps = as ++ p :: bs ∧ p.2 = 0 ∧ (∀ a ∈ as, a.2 ≠ 0) ∧
      orderOperands reorder ps = p :: (as ++ bs)) ∨
    (∀ p ∈ ps, p.2 ≠ 0) ∧ orderOperands reorder ps =
      if reorder then ps.mergeSort fun p q => p.2 ≤ q.2 else ps := by
  unfold orderOperands
  cases h : bringToFront ps with
  | none => exact .inr ⟨bringToFront_eq_none h, rfl⟩
  | some qs =>
    obtain ⟨as, p, bs, hps, hp, has, hqs⟩ := bringToFront_eq_some h
    exact .inl ⟨as, p, bs, hps, hp, has, hqs⟩

/-- Operands of a conjunction change places only. -/
theorem orderOperands_perm (reorder : Bool) (ps : List (Expr × Nat)) :
    (orderOperands reorder ps).Perm ps := by
  rcases orderOperands_cases reorder ps with ⟨as, p, bs, rfl, _, _, h⟩ | ⟨_, h⟩
  · rw [h]
    exact List.perm_middle.symm
  · rw [h]
    split
    · exact List.mergeSort_perm _ _
    · exact .refl _

/-! ## Estimates -/

theorem leastEstimate_eq_zero {ns : List Nat} (hne : ns ≠ []) : leastEstimate ns = 0 ↔ 0 ∈ ns := by
  unfold leastEstimate
  cases h : ns.min? with
  | none => exact absurd (List.min?_eq_none_iff.mp h) hne
  | some m =>
    obtain ⟨hm, hle⟩ := List.min?_eq_some_iff.mp h
    constructor
    · rintro rfl; exact hm
    · intro h0; exact Nat.le_zero.mp (hle 0 h0)

theorem sumEstimates_eq_zero {ns : List Nat} : sumEstimates ns = 0 ↔ ∀ n ∈ ns, n = 0 := by
  have hne : IndexInfo.greatest ≠ 0 := by decide
  have hfold (m : Nat) : ns.foldl (fun sum n => min (sum + n) IndexInfo.greatest) m = 0 ↔
      m = 0 ∧ ∀ n ∈ ns, n = 0 := by
    induction ns generalizing m with
    | nil => simp
    | cons n ns ih =>
      simp only [List.foldl_cons, ih, List.forall_mem_cons, Nat.min_eq_zero_iff, hne, or_false,
        Nat.add_eq_zero_iff, and_assoc]
  exact (hfold 0).trans (by simp)

theorem mem_pruneOperands {f : Expr → Expr × Nat} {es : List Expr} {d : Expr} :
    d ∈ pruneOperands (es.map f) ↔ ∃ e ∈ es, (f e).2 ≠ 0 ∧ (f e).1 = d := by
  simp only [pruneOperands, List.filter_map, List.map_map, List.mem_map, List.mem_filter,
    Function.comp_apply, bne_iff_ne, and_assoc]

/-! ## Nodes -/

section
variable (index : Index) (reorder : Bool)

/-- What the analysis leaves of an expression, with its estimate. -/
def Expr.analysed (e : Expr) : Expr × Nat :=
  ((e.analyse index reorder).value, (e.analyse index reorder).estimate.getD 0)

/-- The index can answer an expression. -/
def Expr.Covered (e : Expr) : Prop := (e.analyse index reorder).estimate.isSome

/-- What becomes of the operands that a disjunction keeps. -/
inductive Kept (span : Span) : List Expr → Expr → Prop where
  | none : Kept span [] (.ofBool false)
  | one {e d : Expr} : (optimizeBoolean e span).value = .ok d → Kept span [e] d
  | several {es : List Expr} : 2 ≤ es.length → Kept span es (.connective .disjunction es span)

variable {index reorder}

theorem analyseAll_some {es : List Expr} {ns : List Nat}
    (h : (analyseAll index reorder es).estimate = some ns) :
    (∀ e ∈ es, e.Covered index reorder) ∧
      (analyseAll index reorder es).value.zip ns = es.map (·.analysed index reorder) := by
  induction es generalizing ns with
  | nil => simp [analyseAll]
  | cons e es ih =>
    rw [analyseAll] at h ⊢
    cases he : (e.analyse index reorder).estimate with
    | none => rw [he] at h; cases h
    | some n =>
      simp only [he] at h ⊢
      obtain ⟨ms, hms, rfl⟩ := Option.map_eq_some_iff.mp h
      obtain ⟨hall, hzip⟩ := ih hms
      refine ⟨List.forall_mem_cons.mpr ⟨?_, hall⟩, ?_⟩
      · rw [Expr.Covered, he]; rfl
      · rw [List.zip_cons_cons, hzip, List.map_cons, Expr.analysed, he]; rfl

theorem analysed_conjunction {es : List Expr} {span : Span}
    (h : (Expr.connective .conjunction es span).Covered index reorder) :
    (∀ e ∈ es, e.Covered index reorder) ∧
      let qs := orderOperands reorder (es.map (·.analysed index reorder))
      (Expr.connective .conjunction es span).analysed index reorder =
        (.connective .conjunction (qs.map (·.1)) span, leastEstimate (qs.map (·.2))) := by
  unfold Expr.Covered at h
  unfold Expr.analysed
  rw [Expr.analyse] at h ⊢
  cases hns : (analyseAll index reorder es).estimate with
  | none => rw [hns] at h; cases h
  | some ns =>
    obtain ⟨hall, hzip⟩ := analyseAll_some hns
    refine ⟨hall, ?_⟩
    simp only [conjoin, hzip, Option.getD_some]
    rfl

theorem disjoin_some {ps : List (Expr × Nat)} {span : Span}
    (h : (disjoin ps span).value.1.isSome) :
    (disjoin ps span).value.1 = some (sumEstimates (ps.map (·.2))) ∧
      Kept span (pruneOperands ps) (disjoin ps span).value.2 := by
  unfold disjoin at h ⊢
  generalize pruneOperands ps = kept at h ⊢
  match kept with
  | [] => exact ⟨rfl, .none⟩
  | [e] =>
    simp only [List.isEmpty_cons, Bool.false_eq_true, if_false] at h ⊢
    cases hb : (optimizeBoolean e span).value with
    | error t => rw [Attempt.andThen_of_error hb] at h; cases h
    | ok d =>
      have hv := Attempt.andThen_of_ok hb fun d => Attempt.lift (replaced .disjunction span d)
      rw [hv]
      exact ⟨rfl, .one hb⟩
  | _ :: _ :: _ => exact ⟨rfl, .several (by simp)⟩

theorem analysed_disjunction {es : List Expr} {span : Span}
    (h : (Expr.connective .disjunction es span).Covered index reorder) :
    (∀ e ∈ es, e.Covered index reorder) ∧
      let ps := es.map (·.analysed index reorder)
      ((Expr.connective .disjunction es span).analysed index reorder).2 =
        sumEstimates (ps.map (·.2)) ∧
      Kept span (pruneOperands ps)
        ((Expr.connective .disjunction es span).analysed index reorder).1 := by
  unfold Expr.Covered at h
  unfold Expr.analysed
  rw [Expr.analyse] at h ⊢
  cases hns : (analyseAll index reorder es).estimate with
  | none => rw [hns] at h; cases h
  | some ns =>
    obtain ⟨hall, hzip⟩ := analyseAll_some hns
    refine ⟨hall, ?_⟩
    simp only [hns, hzip] at h ⊢
    obtain ⟨hsum, hkept⟩ := disjoin_some h
    exact ⟨by rw [hsum]; rfl, hkept⟩

/-- About any other node the index is asked as a whole, and can do better than scan. -/
theorem analyse_other {e : Expr} (h : e.Covered index reorder)
    (he : ∀ c es span, e ≠ .connective c es span) :
    ∃ info, index.info e = some info ∧ info.sequential = false ∧
      e.analyse index reorder = ⟨some info.selectivity, e, [], [e]⟩ := by
  have hask : e.analyse index reorder = askIndex index e := by
    cases e with
    | connective c es span => exact absurd rfl (he c es span)
    | literal v => cases h
    | failing t type span => cases h
    | _ => rw [Expr.analyse] <;> simp
  unfold Expr.Covered at h
  rw [hask] at h ⊢
  unfold askIndex at h ⊢
  cases hi : index.info e with
  | none => rw [hi] at h; cases h
  | some info =>
    simp only [hi] at h
    cases hs : info.sequential with
    | true => rw [hs] at h; cases h
    | false => exact ⟨info, rfl, hs, by simp only [hs]; rfl⟩

/-- Any other node is left as it is. -/
theorem analysed_other {e : Expr} (h : e.Covered index reorder)
    (he : ∀ c es span, e ≠ .connective c es span) :
    ∃ info, index.info e = some info ∧ e.analysed index reorder = (e, info.selectivity) := by
  obtain ⟨info, hi, -, ha⟩ := analyse_other h he
  exact ⟨info, hi, by rw [Expr.analysed, ha]; rfl⟩

/-! ## Parts -/

/-- What a property of nodes must promise to be kept by the analysis. -/
structure KeptByAnalysis (q : Expr → Prop) : Prop where
  connective : ∀ {c es es' span}, q (.connective c es span) → q (.connective c es' span)
  false : q (.ofBool false)
  boolean : ∀ {e d span}, (optimizeBoolean e span).value = .ok d → e.Every q → d.Every q

variable {q : Expr → Prop}

theorem Kept.every (hq : KeptByAnalysis q) {es : List Expr} {d : Expr} {span : Span}
    (h : Kept span es d) (hn : q (.connective .disjunction es span)) (hes : ∀ e ∈ es, e.Every q) :
    d.Every q := by
  cases h with
  | none => exact Expr.every_literal.mpr hq.false
  | one hd => exact hq.boolean hd (hes _ (List.mem_singleton_self _))
  | several _ => exact Expr.every_connective.mpr ⟨hn, hes⟩

theorem Expr.analysed_every (hq : KeptByAnalysis q) {e : Expr} (h : e.Covered index reorder)
    (he : e.Every q) : (e.analysed index reorder).1.Every q := by
  induction e with
  | connective c es span ih =>
    obtain ⟨hn, hes⟩ := Expr.every_connective.mp he
    cases c with
    | conjunction =>
      obtain ⟨hcov, hval⟩ := analysed_conjunction h
      rw [hval]
      refine Expr.every_connective.mpr ⟨hq.connective hn, fun d hd => ?_⟩
      obtain ⟨p, hp, rfl⟩ := List.mem_map.mp hd
      obtain ⟨e, he, rfl⟩ := List.mem_map.mp ((orderOperands_perm reorder _).mem_iff.mp hp)
      exact ih e he (hcov e he) (hes e he)
    | disjunction =>
      obtain ⟨hcov, -, hkept⟩ := analysed_disjunction h
      refine hkept.every hq (hq.connective hn) fun d hd => ?_
      obtain ⟨e, he, -, rfl⟩ := mem_pruneOperands.mp hd
      exact ih e he (hcov e he) (hes e he)
  | _ =>
    obtain ⟨info, -, hval⟩ := analysed_other h (by simp)
    rw [hval]
    exact he

/-! ## Queries -/

theorem consultIndex_covered {e : Expr} (h : e.Covered index reorder) :
    (consultIndex index reorder e).value.value =
      ⟨(e.analysed index reorder).1, some ((e.analysed index reorder).1.lower index).plan⟩ := by
  obtain ⟨n, hn⟩ := Option.isSome_iff_exists.mp h
  simp only [consultIndex, hn]
  rfl

theorem consultIndex_uncovered {e : Expr} (h : ¬ e.Covered index reorder) :
    (consultIndex index reorder e).value.value = ⟨e, none⟩ := by
  have hn := Option.not_isSome_iff_eq_none.mp h
  simp only [consultIndex, hn]

/-- A query that compiles is what the analysis leaves and its plan, if there is an index that is
asked and covers the marked tree, and is the marked tree otherwise. -/
theorem compileQuery_cases {ctx : CompileContext} {checks : Checks} {e r : Expr}
    (hr : (ctx.compile checks e).1 = .ok r) (index : Option Index) :
    ∃ q, (ctx.compileQuery checks index e).1 = .ok q ∧
      ((∃ i, index = some i ∧ ctx.config.index.enabled = true ∧
          r.markTail.Covered i ctx.config.index.reorder ∧
          q.value = ⟨(r.markTail.analysed i ctx.config.index.reorder).1,
            some ((r.markTail.analysed i ctx.config.index.reorder).1.lower i).plan⟩) ∨
        (∀ i, index = some i → ctx.config.index.enabled = true →
          ¬ r.markTail.Covered i ctx.config.index.reorder) ∧ q.value = ⟨r.markTail, none⟩) := by
  have hval : (e.compile checks).value = .ok r := hr
  have hquery : (ctx.compileQuery checks index e).1 =
      (compileQuery ctx.config.index checks index e).value := rfl
  rw [hquery, compileQuery, Attempt.andThen_of_ok hval]
  cases index with
  | none => exact ⟨_, rfl, .inr ⟨nofun, rfl⟩⟩
  | some i =>
    by_cases hen : ctx.config.index.enabled = true
    · simp only [hen, if_true]
      refine ⟨_, rfl, ?_⟩
      by_cases hcov : r.markTail.Covered i ctx.config.index.reorder
      · exact .inl ⟨i, rfl, trivial, hcov, consultIndex_covered hcov⟩
      · exact .inr ⟨fun j hj _ => Option.some.inj hj ▸ hcov, consultIndex_uncovered hcov⟩
    · simp only [hen, Bool.false_eq_true, if_false]
      exact ⟨_, rfl, .inr ⟨fun _ _ => nofun, rfl⟩⟩

end

end QueryExpr
