import QueryExpr.Proofs.Fair
import QueryExpr.Proofs.Rounds

/-!
# QueryExpr.Proofs.Runs

The optimiser of connectives keeps runs: whatever stage and state the operands come to, what the
optimiser makes of them comes to as well. So it fails only if they fail.

* `flattened_run`, `selectOperands_run`, `dropDuplicates_keeps`, `mergeOnto_keeps`, `run_negated` —
  the steps of a round, one by one.
* `Connective.Keeps.merged` — neighbours may be replaced by what has their run.
-/

namespace QueryExpr

section
variable {σ : Type} {h : Host σ} {chance : String → Bool} {L : Library} {S : Score → Prop}
  {c : Context} {k : Connective} {span : Span}

/-! ## Flattening -/

theorem Expr.Fair.flattened {e : Expr} (hf : e.Fair h chance S c) :
    ∀ d ∈ e.flattened k, d.Fair h chance S c := by
  revert hf
  refine flattened_induction (motive := fun e gs =>
    e.Fair h chance S c → ∀ d ∈ gs, d.Fair h chance S c) ?_ ?_ ?_ e
  · intro arg s ih hf; exact ih hf.argument
  · intro es s ih hf d hd
    obtain ⟨e, he, hde⟩ := List.mem_flatMap.mp hd
    exact ih e he (hf.operand e he) d hde
  · intro e _ _ hf d hd
    rw [List.mem_singleton.mp hd]; exact hf

/-- What flattening makes of an operand is run as the operand is. -/
theorem flattened_run (hS : Score.Closed S)
    (hh : h.Draws chance L) {e : Expr} (hf : e.Fair h chance S c) (s : σ) :
    k.run h c (e.flattened k) s = k.run h c [e] s := by
  revert hf s
  refine flattened_induction (motive := fun e gs =>
    e.Fair h chance S c → ∀ s, k.run h c gs s = k.run h c [e] s) ?_ ?_ ?_ e
  · intro arg span ih hf s
    rw [ih hf.argument, Connective.run, Connective.run, ebv_boolean]
  · intro es span ih hf s
    have hyields : ∀ e ∈ es, e.YieldsScored h S c := fun e he => (hf.operand e he).yields hS
    rw [Connective.run_flatMap fun e he s => ih e he (hf.operand e he) s,
      Connective.run_single hS hh hyields]
  · intro e _ _ _ s; rfl

theorem pieces_run (hS : Score.Closed S)
    (hh : h.Draws chance L) {es : List Expr} (hf : ∀ e ∈ es, e.Fair h chance S c) (s : σ) :
    k.run h c (operandsOf (pieces k es)) s = k.run h c es s := by
  rw [operandsOf_piecesList]
  exact Connective.run_flatMap (fun e he s => flattened_run hS hh (hf e he) s) s

theorem pieces_fair {es : List Expr} (hf : ∀ e ∈ es, e.Fair h chance S c) :
    ∀ e ∈ operandsOf (pieces k es), e.Fair h chance S c := by
  rw [operandsOf_piecesList]
  intro d hd
  obtain ⟨e, he, hde⟩ := List.mem_flatMap.mp hd
  exact (hf e he).flattened d hde

/-! ## Literals -/

/-- Folding of literals comes to what the operands come to, and does not fail unless they do. A
literal that ends the row must be unscored, since a scored one does not end an evaluation. -/
theorem selectOperands_run {ps : List Piece}
    (hlit : ∀ v, Expr.literal v ∈ operandsOf ps → v.Unscored) (leading : Bool)
    (span : Span) {s : σ} {r : Stage × σ} (hr : k.run h c (operandsOf ps) s = some r) :
    ∃ kept, (selectOperands k span ps leading).value = .ok kept ∧ k.run h c kept s = some r := by
  have hs := selectOperands_selects k span ps leading
  generalize operandsOf ps = es, (selectOperands k span ps leading).value = x at hs hlit hr ⊢
  induction hs generalizing s r with
  | nil => exact ⟨[], rfl, hr⟩
  | @kept e es fs _ _ _ ih =>
    obtain ⟨b, s', hb⟩ := Connective.ebv_of_run hr
    refine ⟨e :: fs, rfl, ?_⟩
    rw [Connective.run_cons_of_ok hb] at hr ⊢
    cases hst : k.stage c.scoring b with
    | decided => rw [hst] at hr; exact hr
    | pending met =>
      rw [hst] at hr
      obtain ⟨q, hq, rfl⟩ := Option.map_eq_some_iff.mp hr
      obtain ⟨_, ⟨⟩, hrun⟩ := ih (fun v hv => hlit v (List.mem_cons_of_mem _ hv)) hq
      simp only [Connective.proceed, hrun, Connective.afterward, Option.map_some]
  | failed _ ht =>
    obtain ⟨b, s', hb⟩ := Connective.ebv_of_run hr
    cases ht.symm.trans (ebv_at (Prod.mk.inj hb).1 span)
  | parked _ ht =>
    obtain ⟨b, s', hb⟩ := Connective.ebv_of_run hr
    cases ht.symm.trans (ebv_at (Prod.mk.inj hb).1 span)
  | @decided v b _ es hb hd =>
    have hplain := (hlit v (List.mem_cons_self ..)).ebv hb
    have hebv : (Expr.literal v).ebv h c s = (.ok b, s) := congrArg (·, s) (ebv_at hb .unknown)
    rw [Connective.run_cons_of_ok hebv, hplain, Connective.stage_plain, if_pos hd] at hr
    refine ⟨[.ofBool k.absorbing], rfl, ?_⟩
    have hone : (Expr.ofBool k.absorbing).ebv h c s = (.ok (.plain k.absorbing), s) := rfl
    rw [Connective.run_single_of_ok hone, Connective.stage_plain, if_pos rfl]
    exact hr
  | @dropped v b es x _ hb hd _ ih =>
    have hplain := (hlit v (List.mem_cons_self ..)).ebv hb
    have hebv : (Expr.literal v).ebv h c s = (.ok b, s) := congrArg (·, s) (ebv_at hb .unknown)
    rw [Connective.run_cons_of_ok hebv, hplain, Connective.stage_plain, if_neg hd] at hr
    simp only [Connective.proceed, Connective.afterward_false] at hr
    exact ih (fun v hv => hlit v (List.mem_cons_of_mem _ hv)) hr

/-! ## Repeated operands -/

/-- Operands that leave the rest to be evaluated have answers that leave it open. -/
theorem Connective.open_of_run {ds : List Expr} {s s' : σ} {met : Bool}
    (hr : k.run h c ds s = some (.pending met, s')) :
    ∀ d ∈ ds, ∃ s₁ s₂ b met', d.ebv h c s₁ = (.ok b, s₂) ∧
      k.stage c.scoring b = .pending met' ∧ (met || met') = met := by
  induction ds generalizing s met with
  | nil => simp
  | cons d ds ih =>
    obtain ⟨b, s₁, hb⟩ := ebv_of_run hr
    rw [run_cons_of_ok hb] at hr
    cases hst : k.stage c.scoring b with
    | decided => rw [hst] at hr; cases hr
    | pending met₁ =>
      rw [hst] at hr
      obtain ⟨⟨st, s₂⟩, hq, hmet⟩ := Option.map_eq_some_iff.mp hr
      cases st with
      | decided => cases hmet
      | pending met₂ =>
        cases hmet
        refine List.forall_mem_cons.mpr ⟨⟨s, s₁, b, met₁, hb, hst, ?_⟩, fun d' hd' => ?_⟩
        · cases met₁ <;> simp
        · obtain ⟨s₃, s₄, b', met', hb', hst', hle⟩ := ih hq d' hd'
          exact ⟨s₃, s₄, b', met', hb', hst', by rw [Bool.or_assoc, hle]⟩

/-- An operand that leaves open what those before it left open can be left out. -/
theorem Connective.Keeps.leftOut {ds es : List Expr} {e : Expr}
    (he : ∀ s s' met, k.run h c ds s = some (.pending met, s') →
      ∃ b met', e.ebv h c s' = (.ok b, s') ∧ k.stage c.scoring b = .pending met' ∧
        (met || met') = met) :
    k.Keeps h c (ds ++ e :: es) (ds ++ es) := by
  intro s r hr
  rw [run_append] at hr ⊢
  obtain ⟨⟨st, s'⟩, hq, hr⟩ := Option.bind_eq_some_iff.mp hr
  rw [hq, Option.bind_some]
  cases st with
  | decided => exact hr
  | pending met =>
    obtain ⟨b, met', hb, hst, hmet⟩ := he s s' met hq
    simp only [proceed, run_cons_of_ok hb, hst, afterward_afterward, hmet] at hr
    exact hr

/-- What an operand answers is no news where an equal one has answered before. -/
theorem dropDuplicates_keeps (hh : h.Draws chance L) {seen es : List Expr}
    (hseen : ∀ e ∈ seen, e.Fair h chance S c) (hes : ∀ e ∈ es, e.Fair h chance S c) :
    k.Keeps h c (seen ++ es) (seen ++ (dropDuplicates k seen es).value) := by
  induction es generalizing seen with
  | nil => exact .refl _
  | cons e es ih =>
    obtain ⟨he, hes⟩ := List.forall_mem_cons.mp hes
    simp only [dropDuplicates]
    split
    · rename_i hdup
      simp only [Bool.and_eq_true, Bool.not_eq_true', List.any_eq_true] at hdup
      obtain ⟨hr, d, hd, hsame⟩ := hdup
      refine .trans (.leftOut fun s s' met hq => ?_) (ih hseen hes)
      obtain ⟨s₁, s₂, b, met', hb, hst, hmet⟩ := Connective.open_of_run hq d hd
      exact ⟨b, met', he.ebv_same hh (hseen d hd) hr hsame hb s', hst, hmet⟩
    · have hseen' : ∀ d ∈ seen ++ [e], d.Fair h chance S c :=
        List.forall_mem_append.mpr ⟨hseen, List.forall_mem_singleton.mpr he⟩
      simpa using ih hseen' hes

/-! ## Neighbours -/

theorem eval_range {b : Bounds} {e : Expr} {s s' : σ} {w : Value} :
    (Expr.range b e span).eval h c s = (.ok w, s') ↔
      ∃ v x, e.eval h c s = (.ok v, s') ∧ b.test? v = some x ∧ w = .ofBool x := by
  rw [Expr.eval_eq_ok, Expr.Evaluates]
  refine exists_congr fun v => ?_
  rw [Except.map_ofBool, exists_and_left]
  simp only [← toOption_eq_some_iff, Bounds.test_toOption]

theorem eval_compare {op : CompareOp} {l : Expr} {w : Value} {s s' : σ} {r : Value} :
    (Expr.compare op l (.literal w) span).eval h c s = (.ok r, s') ↔
      ∃ v x, l.eval h c s = (.ok v, s') ∧ v.compare? op w = some x ∧ r = .ofBool x := by
  rw [Expr.eval_eq_ok, Expr.Evaluates]
  refine exists_congr fun v => ?_
  constructor
  · rintro ⟨_, _, hl, hw, hx⟩
    obtain ⟨rfl, rfl⟩ := Expr.eval_eq_ok.mp hw
    obtain ⟨x, hw, rfl⟩ := Except.map_ofBool.mp hx
    exact ⟨x, hl, Value.compare_toOption op span v _ ▸ toOption_eq_some_iff.mpr hw, rfl⟩
  · rintro ⟨x, hl, hx, rfl⟩
    refine ⟨w, s', hl, Expr.eval_eq_ok.mpr ⟨rfl, rfl⟩, Except.map_ofBool.mpr ⟨x, ?_, rfl⟩⟩
    rwa [← toOption_eq_some_iff, Value.compare_toOption]

theorem eval_position {a b : Int64} {s s' : σ} {v : Value} :
    (Expr.position a b span).eval h c s = (.ok v, s') ↔
      s' = s ∧ ∃ f, c.focus = some f ∧
        v = .ofBool (decide (a ≤ f.position) && decide (f.position ≤ b)) :=
  Expr.eval_eq_ok

theorem ebv_range {b : Bounds} {e : Expr} {s s' : σ} {t : Truth} :
    (Expr.range b e span).ebv h c s = (.ok t, s') ↔
      ∃ v x, e.eval h c s = (.ok v, s') ∧ b.test? v = some x ∧ t = .plain x := by
  rw [ebv_eq_ok]
  constructor
  · rintro ⟨_, hw, ht⟩
    obtain ⟨v, x, hv, hx, rfl⟩ := eval_range.mp hw
    cases ht
    exact ⟨v, x, hv, hx, rfl⟩
  · rintro ⟨v, x, hv, hx, rfl⟩
    exact ⟨.ofBool x, eval_range.mpr ⟨v, x, hv, hx, rfl⟩, rfl⟩

theorem ebv_compare {op : CompareOp} {l : Expr} {w : Value} {s s' : σ} {t : Truth} :
    (Expr.compare op l (.literal w) span).ebv h c s = (.ok t, s') ↔
      ∃ v x, l.eval h c s = (.ok v, s') ∧ v.compare? op w = some x ∧ t = .plain x := by
  rw [ebv_eq_ok]
  constructor
  · rintro ⟨_, hw, ht⟩
    obtain ⟨v, x, hv, hx, rfl⟩ := eval_compare.mp hw
    cases ht
    exact ⟨v, x, hv, hx, rfl⟩
  · rintro ⟨v, x, hv, hx, rfl⟩
    exact ⟨.ofBool x, eval_compare.mpr ⟨v, x, hv, hx, rfl⟩, rfl⟩

theorem ebv_position {a b : Int64} {s s' : σ} {t : Truth} :
    (Expr.position a b span).ebv h c s = (.ok t, s') ↔
      s' = s ∧ ∃ f, c.focus = some f ∧
        t = .plain (decide (a ≤ f.position) && decide (f.position ≤ b)) := by
  rw [ebv_eq_ok]
  constructor
  · rintro ⟨_, hw, ht⟩
    obtain ⟨rfl, f, hf, rfl⟩ := eval_position.mp hw
    cases ht
    exact ⟨rfl, f, hf, rfl⟩
  · rintro ⟨rfl, f, hf, rfl⟩
    exact ⟨_, eval_position.mpr ⟨rfl, f, hf, rfl⟩, rfl⟩

namespace Connective.Keeps

/-- One operand in the place of two: the first has a plain answer, and either this decides, or the
second answers. -/
theorem merged {d e m : Expr} {fs : List Expr}
    (hm : ∀ s s' b, d.ebv h c s = (.ok b, s') → ∃ x, b = .plain x ∧
      (x = k.absorbing → m.ebv h c s = (.ok (.plain x), s')) ∧
      (x ≠ k.absorbing → ∀ a s'', e.ebv h c s' = (.ok a, s'') → m.ebv h c s = (.ok a, s''))) :
    k.Keeps h c (d :: e :: fs) (m :: fs) := by
  intro s r hr
  obtain ⟨b, s', hb⟩ := ebv_of_run hr
  obtain ⟨x, rfl, hdecided, hopen⟩ := hm s s' b hb
  rw [run_cons_of_ok hb, stage_plain] at hr
  by_cases hx : x = k.absorbing
  · rw [if_pos hx] at hr
    rw [run_cons_of_ok (hdecided hx), stage_plain, if_pos hx]
    exact hr
  · rw [if_neg hx] at hr
    simp only [proceed, afterward_false] at hr
    obtain ⟨a, s'', ha⟩ := ebv_of_run hr
    rw [run_cons_of_ok ha] at hr
    rw [run_cons_of_ok (hopen hx a s'' ha)]
    exact hr

theorem positions {a b a' b' lo hi : Int64} (hlo : lo = if a < a' then a' else a)
    (hhi : hi = if b' < b then b' else b) (span' : Span) (fs : List Expr) :
    conjunction.Keeps h c (.position a b span :: .position a' b' span' :: fs)
      ((if hi < lo then Expr.ofBool false else .position lo hi span) :: fs) := by
  refine .merged fun s s' t ht => ?_
  obtain ⟨rfl, f, hf, rfl⟩ := ebv_position.mp ht
  have hboth : (if hi < lo then Expr.ofBool false else .position lo hi span).ebv h c s' =
      (.ok (.plain ((decide (a ≤ f.position) && decide (f.position ≤ b)) &&
        (decide (a' ≤ f.position) && decide (f.position ≤ b')))), s') := by
    rw [← within_overlap hlo hhi]
    split
    · rename_i hlt
      rw [within_crossed hlt]; rfl
    · exact ebv_position.mpr ⟨rfl, f, hf, rfl⟩
  refine ⟨_, rfl, fun hx => ?_, fun hx a₂ s'' ha => ?_⟩
  · rw [hboth, hx]; rfl
  · obtain ⟨rfl, f', hf', rfl⟩ := ebv_position.mp ha
    cases hf.symm.trans hf'
    simp only [absorbing, ne_eq, Bool.not_eq_false] at hx
    rw [hboth, hx, Bool.true_and]

theorem ranges {b b' : Bounds} {e e' : Expr} (hb : b.isEmpty = false) (hb' : b'.isEmpty = false)
    (hone : e.YieldsOne h c) (hsame : e.Repeats h c e') (span' : Span) (fs : List Expr) :
    conjunction.Keeps h c (.range b e span :: .range b' e' span' :: fs)
      ((if (b.inter b').isEmpty then Expr.ofBool false else .range (b.inter b') e span) :: fs) := by
  refine .merged fun s s' t ht => ?_
  obtain ⟨u, x, hu, hx, rfl⟩ := ebv_range.mp ht
  obtain ⟨rfl, hsecond⟩ := hsame s u s' hu
  obtain ⟨y, hy, hxy⟩ := Bounds.test?_inter hb hb' (hone s' u s' hu) hx
  have hboth : (if (b.inter b').isEmpty then Expr.ofBool false
      else .range (b.inter b') e span).ebv h c s' = (.ok (.plain (x && y)), s') := by
    split
    · rename_i hemp
      rw [Bounds.test?_of_isEmpty hemp hxy]; rfl
    · exact ebv_range.mpr ⟨u, _, hu, hxy, rfl⟩
  refine ⟨x, rfl, fun hk => ?_, fun hk a s'' ha => ?_⟩
  · rw [hboth, hk]; rfl
  · obtain ⟨u', z, hu', hz, rfl⟩ := ebv_range.mp ha
    cases hsecond.symm.trans hu'
    cases hy.symm.trans hz
    simp only [absorbing, ne_eq, Bool.not_eq_false] at hk
    rw [hboth, hk, Bool.true_and]

theorem equalities {l l' : Expr} (hone : l.YieldsOne h c) (hsame : l.Repeats h c l') (v w : Value)
    (span' : Span) (fs : List Expr) :
    disjunction.Keeps h c
      (.compare .eq l (.literal v) span :: .compare .eq l' (.literal w) span' :: fs)
      (.compare .eq l (.literal (v ++ w)) span :: fs) := by
  refine .merged fun s s' t ht => ?_
  obtain ⟨u, x, hu, hx, rfl⟩ := ebv_compare.mp ht
  have hlen := hone s u s' hu
  obtain ⟨rfl, hsecond⟩ := hsame s u s' hu
  refine ⟨x, rfl, fun hk => ebv_compare.mpr ⟨u, x, hu, ?_, rfl⟩, fun hk a s'' ha => ?_⟩
  · rw [Value.compare?_append hlen, hx, hk]; rfl
  · obtain ⟨u', z, hu', hz, rfl⟩ := ebv_compare.mp ha
    cases hsecond.symm.trans hu'
    refine ebv_compare.mpr ⟨u, z, hu, ?_, rfl⟩
    have hfalse : x = false := by simpa [absorbing] using hk
    rw [Value.compare?_append hlen, hx, hfalse]
    exact hz

end Connective.Keeps

/-- Two tests of one item that are made one test answer as both did, one after the other. -/
theorem merge?_keeps (hh : h.Draws chance L) {d e : Expr} {m : Noted Expr} {fs : List Expr}
    (hds : d.Settled) (hes : e.Settled) (hd : d.Fair h chance S c) (he : e.Fair h chance S c)
    (hm : d.merge? k e = some m) : k.Keeps h c (d :: e :: fs) (m.value :: fs) := by
  rcases merge?_cases hm with ⟨a, b, span, a', b', span', lo, hi, rfl, rfl, rfl, hlo, hhi, hm⟩ |
    ⟨b, d', span, b', e', span', rfl, rfl, rfl, hsame, hr, hone, hm⟩ |
    ⟨l, v, span, l', w, span', rfl, rfl, rfl, hsame, hr, hm⟩
  · rw [hm]
    exact .positions hlo hhi span' fs
  · rw [hm]
    have hd' := hd.rangeOperand
    exact .ranges hds.node.1 hes.node.1 (hd'.yieldsOne (Expr.every_range.mp hds).2 hone)
      (hd'.repeats hh he.rangeOperand hr hsame) span' fs
  · rw [hm]
    obtain ⟨hl, hone, -, -⟩ := hd.equality
    exact .equalities (hl.yieldsOne (Expr.every_compare.mp hds).2.1 hone)
      (hl.repeats hh he.equality.1 hr hsame) v w span' fs

theorem merge?_fair (hS : Score.Closed S) {d e : Expr} {m : Noted Expr} (hd : d.Fair h chance S c)
    (he : e.Fair h chance S c) (hm : d.merge? k e = some m) : m.value.Fair h chance S c := by
  rcases merge?_cases hm with ⟨a, b, span, a', b', span', lo, hi, rfl, rfl, rfl, -, -, hm⟩ |
    ⟨b, d', span, b', e', span', rfl, rfl, rfl, -, -, -, hm⟩ |
    ⟨l, v, span, l', w, span', rfl, rfl, rfl, -, -, hm⟩
  · rw [hm]
    split
    · exact hS.fair_ofBool false
    · exact .position _ _
  · rw [hm]
    split
    · exact hS.fair_ofBool false
    · exact .range _ hd.rangeOperand
  · rw [hm]
    obtain ⟨hl, hone, hv, hv'⟩ := hd.equality
    obtain ⟨-, -, hw, hw'⟩ := he.equality
    exact .compare hl hone (List.forall_mem_append.mpr ⟨hv, hw⟩)
      (List.forall_mem_append.mpr ⟨hv', hw'⟩)

theorem mergeOnto_keeps (hS : Score.Closed S) (hh : h.Draws chance L) {d : Expr} {es : List Expr}
    (hds : d.Settled) (hess : ∀ e ∈ es, e.Settled) (hd : d.Fair h chance S c)
    (hes : ∀ e ∈ es, e.Fair h chance S c) : k.Keeps h c (d :: es) (mergeOnto k d es).value := by
  induction es generalizing d with
  | nil => exact .refl _
  | cons e es ih =>
    obtain ⟨hes', hess⟩ := List.forall_mem_cons.mp hess
    obtain ⟨he, hes⟩ := List.forall_mem_cons.mp hes
    simp only [mergeOnto]
    split
    · rename_i m hm
      exact (merge?_keeps hh hds hes' hd he hm).trans
        (ih (merge?_settled hds hes' hm) hess (merge?_fair hS hd he hm) hes)
    · exact (ih hes' hess he hes).append_left [d]

/-! ## Negations -/

/-- A negation leaves a connective in the stage in which its argument leaves the opposite
connective; only under a conjunction, scores matter. -/
theorem Connective.stage_opposite (scoring : Bool) {b : Truth}
    (hb : k = .disjunction ∨ b.score = .zero) :
    k.stage scoring (.plain !b.value) = k.opposite.stage scoring b := by
  rw [stage_plain]
  rcases hb with rfl | hb
  · cases hv : b.value <;> simp [stage, opposite, absorbing, hv]
  · have hplain : b = .plain b.value := by cases b; cases hb; rfl
    rw [hplain, stage_plain]
    cases b.value <;> cases k <;> rfl

/-- Negations are run as their arguments are under the opposite connective, unless an argument of a
conjunction has a score. -/
theorem run_negated {es args : List Expr} (hn : negated? es = some args)
    (hscore : k = .disjunction ∨ ∀ e ∈ args, ∀ s b s', e.ebv h c s = (.ok b, s') → b.score = .zero)
    (s : σ) : k.run h c es s = k.opposite.run h c args s := by
  induction es generalizing args s with
  | nil => cases hn; rfl
  | cons e es ih =>
    obtain ⟨arg, span, args', rfl, hn', rfl⟩ := negated?_cons hn
    have harg := hscore.imp_right fun hs => hs arg (List.mem_cons_self ..)
    have hargs := hscore.imp_right fun hs e he => hs e (List.mem_cons_of_mem _ he)
    rcases hb : arg.ebv h c s with ⟨t | b, s'⟩
    · rcases hneg : (Expr.call .not arg span).ebv h c s with ⟨t' | b', s''⟩
      · rw [Connective.run_cons_of_error hb, Connective.run_cons_of_error hneg]
      · obtain ⟨a, ha, -⟩ := ebv_of_not hneg
        rw [hb] at ha
        cases ha
    · rw [Connective.run_cons_of_ok hb, Connective.run_cons_of_ok (ebv_not hb span),
        Connective.stage_opposite c.scoring (harg.imp_right fun hs => hs s b s' hb)]
      congr 1
      funext s
      exact ih hn' hargs s

end
end QueryExpr
