import QueryExpr.Proofs.Operands

/-!
# QueryExpr.Proofs.Rounds

The optimiser of connectives as a whole. One round is rewriting; it ends in a settled expression,
or in settled operands that are smaller than those it started from. So the rounds come to an end
before the fuel does, and what they end in is settled.
-/

namespace QueryExpr

/-- The expression that is left to optimise after a round. -/
def Round.expr (c : Connective) (span : Span) : Round → Expr
  | .done e => e
  | .again es => .connective c es span
  | .negation es => .call .not (.connective c.opposite es span) span

/-- A round ends settled, or with settled operands of less than a size. -/
def Round.Within (n : Nat) : Round → Prop
  | .done e => e.Settled
  | .again es => (∀ e ∈ es, e.Settled) ∧ sizeList es < n
  | .negation es => (∀ e ∈ es, e.Settled) ∧ sizeList es < n

/-- The operands that a round leaves for another one are of less than a size. -/
def Round.Smaller (n : Nat) : Round → Prop
  | .done _ => True
  | .again es => sizeList es < n
  | .negation es => sizeList es < n

/-- Every literal among some operands is the last of them and decides. -/
def Connective.LiteralLast (c : Connective) (es : List Expr) : Prop :=
  ∀ ds v fs, es = ds ++ .literal v :: fs → fs = [] ∧ Expr.literal v = .ofBool c.absorbing

theorem Connective.LiteralLast.sublist {c : Connective} {es fs : List Expr} (h : c.LiteralLast fs)
    (hs : es.Sublist fs) : c.LiteralLast es := by
  intro ds v gs he
  rw [he, List.append_sublist_iff] at hs
  obtain ⟨r₁, r₂, hr, _, h₂⟩ := hs
  obtain ⟨s₁, s₂, hs', hm, hg⟩ := List.cons_sublist_iff.mp h₂
  obtain ⟨t₁, t₂, rfl⟩ := List.append_of_mem hm
  obtain ⟨hn, hv⟩ := h (r₁ ++ t₁) v (t₂ ++ s₂) (by rw [hr, hs']; simp)
  rw [(List.append_eq_nil_iff.mp hn).2] at hg
  exact ⟨List.sublist_nil.mp hg, hv⟩

section
variable {checks : Checks} {K : Known} {c : Connective} {span : Span}

/-- The operands that a round goes on with after flattening and the folding of literals. -/
structure Selected (c : Connective) (es : List Expr) : Prop where
  settled : ∀ e ∈ es, e.Settled
  flat : ∀ e ∈ es, e.kind ≠ c.kind ∧ e.kind ≠ .boolean
  literal_last : c.LiteralLast es

theorem selectOperands_selected {es kept : List Expr} {leading : Bool}
    (hes : ∀ e ∈ es, e.Settled)
    (h : (selectOperands c span (pieces c es) leading).value = .ok kept) : Selected c kept := by
  have hops := operandsOf_piecesList c es
  have hmem : ∀ e ∈ operandsOf (pieces c es), ∃ d ∈ es, e ∈ d.flattened c := by
    intro e he
    rw [hops] at he
    exact List.mem_flatMap.mp he
  refine ⟨?_, ?_, fun ds v fs hk => selectOperands_literal h hk⟩
  · refine selectOperands_mem (P := Expr.Settled) (Expr.settled_ofBool _)
      (fun t type => Expr.settled_failing t type span) (fun e he => ?_) h
    obtain ⟨d, hd, hed⟩ := hmem e he
    exact flattened_every (hes d hd) e hed
  · refine selectOperands_mem (P := fun e => e.kind ≠ c.kind ∧ e.kind ≠ .boolean)
      ?_ (fun _ _ => ?_) (fun e he => ?_) h
    · cases c <;> simp [Expr.ofBool, Expr.kind, Connective.kind]
    · cases c <;> simp [Expr.kind, Connective.kind]
    · obtain ⟨d, _, hed⟩ := hmem e he
      exact flattened_flat d e hed

/-! ## One round -/

theorem dropDuplicates_cons (e : Expr) (es : List Expr) :
    (dropDuplicates c [] (e :: es)).value = e :: (dropDuplicates c [e] es).value := by
  simp [dropDuplicates]

/-- Operands that are left as they are make a normal form, unless there is one only. -/
theorem normal_of_selected {es us : List Expr} (h : Selected c es)
    (hu : us = (dropDuplicates c [] es).value) (hl : 2 ≤ us.length)
    (hm : ∀ ds d e fs, us = ds ++ d :: e :: fs → d.merge? c e = none)
    (hn : negated? us = none) : c.Normal us := by
  have hsub : us.Sublist es := hu ▸ dropDuplicates_sublist [] es
  refine ⟨hl, fun e he => h.flat e (hsub.subset he), fun ds v fs hk => ?_, ?_, hm,
    negated?_eq_none hn⟩
  · obtain ⟨hf, hv⟩ := (h.literal_last.sublist hsub) ds v fs hk
    refine ⟨fun hd => ?_, hf, hv⟩
    rw [hk, hd, hf] at hl
    simp at hl
  · rw [hu]; exact (dropDuplicates_distinct [] es).2

/-- The four ways in which a round over selected operands ends. -/
theorem combineOperands_cases (c : Connective) (es : List Expr) (span : Span) {us ms : List Expr}
    (hu : (dropDuplicates c [] es).value = us) (hm : (mergeAdjacent c us).value = ms) :
    (ms.length ≠ us.length ∧ (combineOperands c es span).value = .ok (.again ms)) ∨
    (∃ e, ms = [e] ∧
      (combineOperands c es span).value = (optimizeBoolean e span).value.map .done) ∨
    (∃ args, negated? ms = some args ∧
      (combineOperands c es span).value = .ok (.negation args)) ∨
    (ms.length = us.length ∧ (∀ e, ms ≠ [e]) ∧ negated? ms = none ∧
      (combineOperands c es span).value = .ok (.done (.connective c ms span))) := by
  subst hu hm
  simp only [combineOperands, Attempt.value_after]
  split
  · rename_i hl; exact .inl ⟨hl, rfl⟩
  · rename_i hl
    split
    · rename_i e he
      refine .inr (.inl ⟨e, he, ?_⟩)
      rw [Attempt.value_andThen]
      cases (optimizeBoolean e span).value <;> rfl
    · rename_i hne
      split
      · rename_i args hargs; exact .inr (.inr (.inl ⟨args, hargs, rfl⟩))
      · rename_i hnone; exact .inr (.inr (.inr ⟨by omega, hne, hnone, rfl⟩))

/-- From the merged operands on, a round is rewriting whatever the operands are. -/
theorem combineOperands_ends (e : Expr) (es : List Expr) :
    Rewrites checks K
      (.connective c (mergeOnto c e (dropDuplicates c [e] es).value).value span)
      ((combineOperands c (e :: es) span).value.map (Round.expr c span)) := by
  rcases combineOperands_cases c (e :: es) span (dropDuplicates_cons e es) rfl with
    ⟨_, hv⟩ | ⟨d, hd, hv⟩ | ⟨args, hargs, hv⟩ | ⟨_, _, _, hv⟩
  · rw [hv]; exact .refl
  · simp only [mergeAdjacent] at hd
    have hb : Rewrites checks K (.call .boolean d span) (optimizeBoolean d span).value :=
      optimizeBoolean_rewrites d span
    rw [hd, hv]
    refine .trans (.rule .singleOperand) ?_
    cases hr : (optimizeBoolean d span).value with
    | error t => rw [hr] at hb; exact hb
    | ok d' => rw [hr] at hb; exact hb
  · rw [hv]; exact .rule (.negations (mergeOnto_ne_nil _ _) hargs)
  · rw [hv]; exact .refl

theorem combineOperands_rewrites {es : List Expr} (hes : ∀ e ∈ es, e.Settled) (hne : es ≠ []) :
    Rewrites checks K (.connective c es span)
      ((combineOperands c es span).value.map (Round.expr c span)) := by
  obtain ⟨e, es, rfl⟩ := List.exists_cons_of_ne_nil hne
  have hd : Rewrites checks K (.connective c (e :: es) span)
      (.ok (.connective c (dropDuplicates c [] (e :: es)).value span)) :=
    dropDuplicates_rewrites [] (e :: es)
  have hsub := dropDuplicates_sublist (c := c) [] (e :: es)
  rw [dropDuplicates_cons] at hsub
  obtain ⟨he, hus⟩ := List.forall_mem_cons.mp fun d hd => hes d (hsub.subset hd)
  have hm : Rewrites checks K (.connective c (e :: (dropDuplicates c [e] es).value) span)
      (.ok (.connective c (mergeOnto c e (dropDuplicates c [e] es).value).value span)) :=
    mergeOnto_rewrites he hus []
  rw [dropDuplicates_cons] at hd
  exact .trans hd (.trans hm (combineOperands_ends e es))

/-- A round over selected operands merges some of them or takes all their negations away, or it is
the last one. -/
theorem combineOperands_smaller {es : List Expr} (hne : es ≠ []) {r : Round}
    (hr : (combineOperands c es span).value = .ok r) : r.Smaller (sizeList es) := by
  obtain ⟨e, es, rfl⟩ := List.exists_cons_of_ne_nil hne
  have hsub := dropDuplicates_sublist (c := c) [] (e :: es)
  rw [dropDuplicates_cons] at hsub
  have hsize := sizeList_le_of_sublist hsub
  rcases combineOperands_cases c (e :: es) span (dropDuplicates_cons e es) rfl with
    ⟨hl, hv⟩ | ⟨d, hd, hv⟩ | ⟨args, hargs, hv⟩ | ⟨_, _, _, hv⟩
  · cases hv.symm.trans hr
    rcases mergeOnto_cases (c := c) e (dropDuplicates c [e] es).value with ⟨hv, _⟩ | ⟨_, hs⟩
    · simp only [mergeAdjacent] at hl
      rw [hv] at hl
      exact absurd rfl hl
    · exact Nat.lt_of_lt_of_le hs hsize
  · rw [hv] at hr
    cases hd' : (optimizeBoolean d span).value with
    | error t => rw [hd'] at hr; cases hr
    | ok d' => rw [hd'] at hr; cases hr; trivial
  · cases hv.symm.trans hr
    have hle : sizeList (mergeOnto c e (dropDuplicates c [e] es).value).value ≤
        sizeList (e :: (dropDuplicates c [e] es).value) := by
      rcases mergeOnto_cases (c := c) e (dropDuplicates c [e] es).value with ⟨hv, _⟩ | ⟨_, hs⟩
      · exact Nat.le_of_eq (by rw [hv])
      · exact Nat.le_of_lt hs
    have hsz := negated?_size hargs
    have hpos : (mergeOnto c e (dropDuplicates c [e] es).value).value ≠ [] :=
      mergeOnto_ne_nil _ _
    have := List.length_pos_iff.mpr hpos
    simp only [mergeAdjacent] at hsz
    simp only [Round.Smaller]
    omega
  · cases hv.symm.trans hr; trivial

theorem combineOperands_within {es : List Expr} (h : Selected c es) (hne : es ≠ []) {r : Round}
    (hr : (combineOperands c es span).value = .ok r) : r.Within (sizeList es) := by
  have hsmaller := combineOperands_smaller hne hr
  obtain ⟨e, es, rfl⟩ := List.exists_cons_of_ne_nil hne
  have hsub := dropDuplicates_sublist (c := c) [] (e :: es)
  rw [dropDuplicates_cons] at hsub
  have hus := fun d hd => h.settled d (hsub.subset hd)
  obtain ⟨he, hus'⟩ := List.forall_mem_cons.mp hus
  have hms := mergeOnto_settled (c := c) he hus'
  rcases combineOperands_cases c (e :: es) span (dropDuplicates_cons e es) rfl with
    ⟨hl, hv⟩ | ⟨d, hd, hv⟩ | ⟨args, hargs, hv⟩ | ⟨hl, hne, hnone, hv⟩
  · cases hv.symm.trans hr
    exact ⟨hms, hsmaller⟩
  · have hb : ∀ d', (optimizeBoolean d span).value = .ok d' → d'.Settled :=
      optimizeBoolean_settled (hms d (hd ▸ List.mem_singleton_self d)) span
    rw [hv] at hr
    cases hd' : (optimizeBoolean d span).value with
    | error t => rw [hd'] at hr; cases hr
    | ok d' => rw [hd'] at hr; cases hr; exact hb d' hd'
  · cases hv.symm.trans hr
    exact ⟨negated?_every hargs hms, hsmaller⟩
  · cases hv.symm.trans hr
    simp only [mergeAdjacent] at hl hne hnone ⊢
    rcases mergeOnto_cases (c := c) e (dropDuplicates c [e] es).value with ⟨hv, hn⟩ | ⟨hl', _⟩
    · rw [hv] at hne hnone ⊢
      refine Expr.every_connective.mpr ⟨normal_of_selected h (dropDuplicates_cons e es).symm ?_ hn
        hnone, hus⟩
      cases hu : (dropDuplicates c [e] es).value with
      | nil => rw [hu] at hne; exact absurd rfl (hne e)
      | cons u us => simp
    · exact absurd hl (Nat.ne_of_lt hl')

theorem flatten_rewrites (es : List Expr) :
    Rewrites checks K (.connective c es span)
      (.ok (.connective c (operandsOf (pieces c es)) span)) := by
  have h : Rewrites checks K (.connective c ([] ++ (es ++ [])) span)
      (.ok (.connective c ([] ++ (es.flatMap (·.flattened c) ++ [])) span)) :=
    flatMap_rewrites (fun e _ => flattened_rewrites e) [] []
  simpa [operandsOf_piecesList] using h

theorem connectiveStep_rewrites {es : List Expr} (hes : ∀ e ∈ es, e.Settled) :
    Rewrites checks K (.connective c es span)
      ((connectiveStep c es span).value.map (Round.expr c span)) := by
  have hsel : Rewrites checks K (.connective c (operandsOf (pieces c es)) span)
      ((selectOperands c span (pieces c es) true).value.map fun kept => .connective c kept span) :=
    selectOperands_rewrites (pieces c es) true [] (fun _ => rfl)
  refine .trans (flatten_rewrites es) ?_
  simp only [connectiveStep]
  cases hk : (selectOperands c span (pieces c es) true).value with
  | error t => rw [Attempt.andThen_of_error hk]; rw [hk] at hsel; exact hsel
  | ok kept =>
    have hs := selectOperands_selected hes hk
    rw [Attempt.andThen_of_ok hk]
    rw [hk] at hsel
    refine .trans hsel ?_
    split
    · exact .rule .noOperand
    · rename_i v
      obtain ⟨_, hv⟩ := hs.literal_last [] v [] rfl
      rw [hv]
      exact .rule .decidedOperand
    · rename_i hne _
      exact combineOperands_rewrites hs.settled hne

/-- Flattening and the folding of literals do not make operands larger. -/
theorem selected_size {es kept : List Expr}
    (hk : (selectOperands c span (pieces c es) true).value = .ok kept) :
    sizeList kept ≤ sizeList es := by
  refine Nat.le_trans (selectOperands_size hk) ?_
  rw [operandsOf_piecesList]
  exact flatMap_size fun e _ => flattened_size e

/-- Every round but the last makes the operands smaller. -/
theorem connectiveStep_smaller {es : List Expr} {r : Round}
    (hr : (connectiveStep c es span).value = .ok r) : r.Smaller (sizeList es) := by
  obtain ⟨kept, hk, hr⟩ := Attempt.andThen_eq_ok.mp hr
  have hsize := selected_size hk
  split at hr
  · cases hr; trivial
  · cases hr; trivial
  · rename_i hne _
    have hw := combineOperands_smaller hne hr
    cases r with
    | done e => trivial
    | again fs => exact Nat.lt_of_lt_of_le hw hsize
    | negation fs => exact Nat.lt_of_lt_of_le hw hsize

theorem connectiveStep_within {es : List Expr} (hes : ∀ e ∈ es, e.Settled) {r : Round}
    (hr : (connectiveStep c es span).value = .ok r) : r.Within (sizeList es) := by
  have hsmaller := connectiveStep_smaller hr
  obtain ⟨kept, hk, hr⟩ := Attempt.andThen_eq_ok.mp hr
  have hsel := selectOperands_selected hes hk
  split at hr
  · cases hr; exact Expr.settled_ofBool _
  · cases hr; exact Expr.settled_literal _
  · rename_i hne _
    have hw := combineOperands_within hsel hne hr
    cases r with
    | done e => exact hw
    | again fs => exact ⟨hw.1, hsmaller⟩
    | negation fs => exact ⟨hw.1, hsmaller⟩

/-! ## All rounds -/

theorem rounds_reaches {fuel : Nat} {es : List Expr} (hf : sizeList es < fuel)
    (hes : ∀ e ∈ es, e.Settled) :
    Reaches checks K (.connective c es span) (rounds fuel c es span).value := by
  induction fuel generalizing c es with
  | zero => omega
  | succ fuel ih =>
    have hstep : Rewrites checks K (.connective c es span)
        ((connectiveStep c es span).value.map (Round.expr c span)) :=
      connectiveStep_rewrites hes
    simp only [rounds]
    cases hr : (connectiveStep c es span).value with
    | error t =>
      rw [hr] at hstep
      rw [Attempt.andThen_of_error hr]
      exact .error hstep
    | ok r =>
      rw [hr] at hstep
      rw [Attempt.andThen_of_ok hr]
      have hw : r.Within (sizeList es) := connectiveStep_within hes hr
      cases r with
      | done e => exact .ok hstep hw
      | again fs => exact .after hstep (ih (Nat.lt_of_lt_of_le hw.2 (Nat.le_of_lt_succ hf)) hw.1)
      | negation fs =>
        have hinner : Reaches checks K (.connective c.opposite fs span)
            (rounds fuel c.opposite fs span).value :=
          ih (Nat.lt_of_lt_of_le hw.2 (Nat.le_of_lt_succ hf)) hw.1
        refine .after hstep ?_
        simp only [Round.expr]
        cases hi : (rounds fuel c.opposite fs span).value with
        | error t =>
          rw [hi] at hinner
          rw [Attempt.andThen_of_error hi]
          exact .error (.first (.callArgument .not span) trivial hinner.rewrites)
        | ok e =>
          rw [hi] at hinner
          rw [Attempt.andThen_of_ok hi]
          have hnot : Reaches checks K (.call .not e span) (optimizeNot e span).value :=
            optimizeNot_reaches (hinner.settled e rfl) span
          refine .after (.inside (.callArgument .not span) hinner.rewrites) ?_
          cases hn : (optimizeNot e span).value with
          | error t => rw [hn] at hnot; rw [Attempt.andThen_of_error hn]; exact hnot
          | ok e' => rw [hn] at hnot; rw [Attempt.andThen_of_ok hn]; exact hnot

theorem optimizeConnective_reaches {es : List Expr} (hes : ∀ e ∈ es, e.Settled) :
    Reaches checks K (.connective c es span) (optimizeConnective c es span).value :=
  rounds_reaches (Nat.lt_succ_self _) hes

end

end QueryExpr
