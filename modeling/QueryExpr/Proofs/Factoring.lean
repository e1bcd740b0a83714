import QueryExpr.Proofs.Landing

/-!
# QueryExpr.Proofs.Factoring

Negations factored out of a connective whose operands may have scores.

A negation looks away from the score of its argument, and so a conjunction of negations ends at the
first argument that is true. The disjunction of the arguments goes on behind one that is true with a
score, and then a later argument may fail.

* `QuietBehindScores`  — where that happens, no operand fails.
* `run_opposite`       — then the arguments come to the opposite truth.
* `connectiveStep_negations` — a round leaves one negation, or factors it out of all.
* `optimize_negations` — and so optimisation keeps the truth of the connective.
-/

namespace QueryExpr

section
variable {σ : Type} {h : Host σ} {L : Library} {S : Score → Prop} {c : Context} {k : Connective}
  {span : Span}

/-! ## Operands behind a score -/

/-- A negation of an expression that is true, with a score or without one. -/
def Expr.Denies (h : Host σ) (c : Context) (scored : Bool) (e : Expr) : Prop :=
  ∃ arg span s b s', e = .call .not arg span ∧ arg.ebv h c s = (.ok b, s') ∧ b.value = true ∧
    b.score.isZero = !scored

/-- No operand fails, unless it stands behind a negation of something that is true and unscored. -/
def Unfailing (h : Host σ) (c : Context) (es : List Expr) : Prop :=
  ∀ ds e fs, es = ds ++ e :: fs → (∀ d ∈ ds, ¬ d.Denies h c false) →
    ∃ s v s', e.eval h c s = (.ok v, s')

/-- Of the operands behind a negation of something scored, none fails, unless it also stands behind
a negation of something that is true and unscored. -/
def QuietBehindScores (h : Host σ) (c : Context) (es : List Expr) : Prop :=
  ∀ ds e fs, es = ds ++ e :: fs → (∃ d ∈ ds, d.Denies h c true) →
    (∀ d ∈ ds, ¬ d.Denies h c false) → ∃ s v s', e.eval h c s = (.ok v, s')

theorem Unfailing.tail {e : Expr} {es : List Expr} (hq : Unfailing h c (e :: es))
    (he : ¬ e.Denies h c false) : Unfailing h c es :=
  fun ds d fs heq hds => hq (e :: ds) d fs (by rw [heq]; rfl) (List.forall_mem_cons.mpr ⟨he, hds⟩)

namespace QuietBehindScores

theorem tail {e : Expr} {es : List Expr} (hq : QuietBehindScores h c (e :: es))
    (he : ¬ e.Denies h c false) : QuietBehindScores h c es := by
  rintro ds d fs heq ⟨d', hd', hden⟩ hds
  exact hq (e :: ds) d fs (by rw [heq]; rfl) ⟨d', List.mem_cons_of_mem _ hd', hden⟩
    (List.forall_mem_cons.mpr ⟨he, hds⟩)

theorem unfailing {e : Expr} {es : List Expr} (hq : QuietBehindScores h c (e :: es))
    (he : e.Denies h c true) (hn : ¬ e.Denies h c false) : Unfailing h c es := by
  intro ds d fs heq hds
  exact hq (e :: ds) d fs (by rw [heq]; rfl) ⟨e, List.mem_cons_self .., he⟩
    (List.forall_mem_cons.mpr ⟨hn, hds⟩)

end QuietBehindScores

/-- Under a library, what leaves a disjunction open is not true without a score. -/
theorem not_denies {arg : Expr} {b : Truth} {met : Bool}
    (hb : arg.ebv L.host c () = (.ok b, ()))
    (hst : Connective.disjunction.stage c.scoring b = .pending met) :
    ¬ (Expr.call .not arg span).Denies L.host c false := by
  rintro ⟨_, _, _, b', _, heq, hb', hv, hz⟩
  cases heq
  cases hb.symm.trans hb'
  simp [Connective.stage, Connective.absorbing, hv, hz] at hst

theorem Stage.truth_opposite (st : Stage) : st.truth k.opposite = !st.truth k := by
  cases st with
  | decided => cases k <;> rfl
  | pending met => cases met <;> cases k <;> rfl

/-- Where no negation fails, the disjunction of their arguments does not. -/
theorem run_unfailing {es args : List Expr} (hn : negated? es = some args)
    (hq : Unfailing L.host c es) :
    ∃ st, Connective.disjunction.run L.host c args () = some (st, ()) := by
  induction es generalizing args with
  | nil => cases hn; exact ⟨_, rfl⟩
  | cons e es ih =>
    obtain ⟨arg, span, args', rfl, hn', rfl⟩ := negated?_cons hn
    obtain ⟨_, v, _, hv⟩ := hq [] _ es rfl (by simp)
    obtain ⟨b, hb, -⟩ := eval_call_eq_ok.mp hv
    rw [Connective.run_cons_of_ok hb]
    cases hst : Connective.disjunction.stage c.scoring b with
    | decided => exact ⟨_, rfl⟩
    | pending met =>
      obtain ⟨st, hr⟩ := ih hn' (hq.tail (not_denies hb hst))
      refine ⟨st.after met, ?_⟩
      simp only [Connective.proceed, hr, Connective.afterward, Option.map_some]

/-- The arguments of negations come to the opposite truth under the opposite connective. -/
theorem run_opposite {es args : List Expr} (hn : negated? es = some args)
    (hq : k = .conjunction → QuietBehindScores L.host c es) {st : Stage}
    (hr : k.run L.host c es () = some (st, ())) :
    ∃ st', k.opposite.run L.host c args () = some (st', ()) ∧
      st'.truth k.opposite = !st.truth k := by
  cases k with
  | disjunction =>
    rw [run_negated hn (.inl rfl)] at hr
    exact ⟨st, hr, st.truth_opposite⟩
  | conjunction =>
    replace hq := hq rfl
    induction es generalizing args st with
    | nil => cases hn; cases hr; exact ⟨_, rfl, rfl⟩
    | cons e es ih =>
      obtain ⟨arg, span, args', rfl, hn', rfl⟩ := negated?_cons hn
      obtain ⟨a, ⟨⟩, ha⟩ := Connective.ebv_of_run hr
      obtain ⟨b, hb, rfl⟩ := ebv_of_not ha
      rw [Connective.run_cons_of_ok ha, Connective.stage_plain] at hr
      simp only [Connective.opposite]
      rw [Connective.run_cons_of_ok hb]
      cases hv : b.value with
      | false =>
        have hst : Connective.disjunction.stage c.scoring b = .pending false := by
          simp [Connective.stage, hv, Connective.absorbing]
        simp only [hv, Connective.absorbing, Bool.not_false, Bool.true_eq_false, if_false,
          Connective.proceed, Connective.afterward_false] at hr
        obtain ⟨st', hr', ht⟩ := ih hn' hr (hq.tail (not_denies hb hst))
        exact ⟨st', by simpa [hst, Connective.proceed, Connective.opposite] using hr', ht⟩
      | true =>
        simp only [hv, Connective.absorbing, Bool.not_true, if_true, Connective.proceed] at hr
        cases hr
        cases hst : Connective.disjunction.stage c.scoring b with
        | decided => exact ⟨_, rfl, rfl⟩
        | pending met =>
          -- The score of this argument keeps the disjunction going.
          have hmet := Connective.truth_stage .disjunction c.scoring b
          rw [hst, hv] at hmet
          obtain rfl : met = true := by simpa [Stage.truth, Connective.absorbing] using hmet
          have hscored : b.score.isZero = false := by
            cases hz : b.score.isZero with
            | false => rfl
            | true => simp [Connective.stage, Connective.absorbing, hv, hz] at hst
          have hdenies : (Expr.call .not arg span).Denies L.host c true :=
            ⟨arg, span, (), b, (), rfl, hb, hv, by simp [hscored]⟩
          obtain ⟨st', hr'⟩ := run_unfailing hn' (hq.unfailing hdenies (not_denies hb hst))
          refine ⟨st'.after true, ?_, by cases st' <;> rfl⟩
          simp only [Connective.proceed, hr', Connective.afterward, Option.map_some]

/-! ## Negations among themselves -/

theorem negated?_append {ds es args args' : List Expr} (hd : negated? ds = some args)
    (he : negated? es = some args') : negated? (ds ++ es) = some (args ++ args') := by
  induction ds generalizing args with
  | nil => cases hd; exact he
  | cons d ds ih =>
    obtain ⟨arg, span, args'', rfl, hd', rfl⟩ := negated?_cons hd
    simp only [List.cons_append, negated?, ih hd', Option.map_some]

theorem negated?_any {es args : List Expr} (hn : negated? es = some args) (arg : Expr)
    (span : Span) : es.any (Expr.call .not arg span).same = args.any arg.same := by
  induction es generalizing args with
  | nil => cases hn; rfl
  | cons e es ih =>
    obtain ⟨arg', span', args', rfl, hn', rfl⟩ := negated?_cons hn
    simp only [List.any_cons, ih hn', Expr.same, beq_self_eq_true, Bool.true_and]

/-- Negations repeat each other where their arguments do. -/
theorem negated?_dropDuplicates {k k' : Connective} {seen es seenArgs args : List Expr}
    (hs : negated? seen = some seenArgs) (hn : negated? es = some args) :
    negated? (dropDuplicates k seen es).value = some (dropDuplicates k' seenArgs args).value := by
  induction es generalizing args seen seenArgs with
  | nil => cases hn; rfl
  | cons e es ih =>
    obtain ⟨arg, span, args', rfl, hn', rfl⟩ := negated?_cons hn
    have hrandom : (Expr.call .not arg span).isRandom = arg.isRandom := by rw [Expr.isRandom]
    simp only [dropDuplicates, negated?_any hs arg span, hrandom]
    split
    · exact ih hs hn'
    · have hone : negated? [Expr.call .not arg span] = some [arg] := rfl
      simp only [Noted.value_map, negated?, ih (negated?_append hs hone) hn', Option.map_some]

/-- Negations are not merged. -/
theorem mergeAdjacent_negations {es args : List Expr} (hn : negated? es = some args) :
    (mergeAdjacent k es).value = es := by
  cases es with
  | nil => rfl
  | cons e es =>
    refine mergeOnto_fixed fun ds a b fs heq => ?_
    have hmem := negated?_mem hn
    rw [heq] at hmem
    obtain ⟨arg, s, rfl⟩ := hmem a (by simp)
    cases k <;> rfl

/-- A round leaves negations as they are up to where it drops duplicates. -/
theorem connectiveStep_eq_combine (k : Connective) (span : Span) {es args : List Expr}
    (hn : negated? es = some args) (hne : es ≠ []) :
    (connectiveStep k es span).value = (combineOperands k es span).value := by
  have hmem := negated?_mem hn
  have hops : operandsOf (pieces k es) = es := by
    rw [operandsOf_piecesList]
    refine flatMap_flattened fun e he => ?_
    obtain ⟨arg, s, rfl⟩ := hmem e he
    cases k <;> simp [Expr.kind, Builtin.kind, Connective.kind]
  have hnoLiteral : ∀ v, Expr.literal v ∉ es := by
    intro v hv
    obtain ⟨arg, s, heq⟩ := hmem _ hv
    cases heq
  have hsel : (selectOperands k span (pieces k es) true).value = .ok es := by
    rw [selectOperands_fixed ?_ true, hops]
    rintro ds v fs heq
    rw [hops] at heq
    exact absurd (heq ▸ List.mem_append_right _ (List.mem_cons_self ..)) (hnoLiteral v)
  simp only [connectiveStep]
  rw [Attempt.andThen_of_ok hsel]
  split
  · exact absurd rfl hne
  · exact absurd (List.mem_singleton_self _) (hnoLiteral _)
  · rfl

/-- A round over negations leaves one of them, or factors out the negation. -/
theorem connectiveStep_negations (k : Connective) (span : Span) {es args : List Expr}
    (hn : negated? es = some args) (hne : es ≠ []) :
    (∃ e, (dropDuplicates k [] es).value = [e] ∧
      (connectiveStep k es span).value = (optimizeBoolean e span).value.map .done) ∨
    (connectiveStep k es span).value =
      .ok (.negation (dropDuplicates k.opposite [] args).value) := by
  have hus : negated? (dropDuplicates k [] es).value =
      some (dropDuplicates k.opposite [] args).value := negated?_dropDuplicates rfl hn
  rw [connectiveStep_eq_combine k span hn hne]
  rcases combineOperands_cases k es span rfl (mergeAdjacent_negations hus) with
    ⟨hl, -⟩ | ⟨e, he, hv⟩ | ⟨args', hargs, hv⟩ | ⟨-, -, hnone, -⟩
  · exact absurd rfl hl
  · exact .inl ⟨e, he, hv⟩
  · cases hus.symm.trans hargs
    exact .inr hv
  · rw [hus] at hnone
    cases hnone

/-- The arguments of settled negations are no literals, and no negations themselves. -/
theorem negated?_mixed {es args : List Expr} (hn : negated? es = some args) (hne : es ≠ [])
    (hes : ∀ e ∈ es, e.Settled) : k.Mixed (dropDuplicates k [] args).value := by
  have hcore : ∀ e ∈ args, e.literal? = none ∧ e.kind ≠ .negation :=
    negated?_forall_mem (fun _ _ he => ⟨he.node.1, he.node.2.2⟩) hn hes
  refine ⟨fun v hv => ?_, ?_⟩
  · cases (hcore _ ((dropDuplicates_sublist [] args).subset hv)).1
  · obtain ⟨e, es', rfl⟩ := List.exists_cons_of_ne_nil hne
    obtain ⟨arg, s, args', rfl, -, rfl⟩ := negated?_cons hn
    refine ⟨arg, ?_, (hcore arg (List.mem_cons_self ..)).2⟩
    rw [dropDuplicates_cons]
    exact List.mem_cons_self ..

/-! ## From a host to its library -/

theorem Expr.Denies.transfer {τ : Type} {g : Host τ} (hh : h.Steady L) (hg : g.Steady L) (t : τ)
    {scored : Bool} {e : Expr} (he : e.Denies h c scored) : e.Denies g c scored := by
  obtain ⟨arg, span, s, b, s', rfl, hb, hv, hz⟩ := he
  have hag := (hh.eval_agrees hg arg c).ebv (s := s) (t := t) trivial
  obtain ⟨t', hb', -⟩ := hag.of_ok hb
  exact ⟨arg, span, t, b, t', rfl, hb', hv, hz⟩

theorem QuietBehindScores.library (hh : h.Steady L) (s : σ) {es : List Expr}
    (hq : QuietBehindScores h c es) : QuietBehindScores L.host c es := by
  rintro ds e fs heq ⟨d, hd, hden⟩ hds
  obtain ⟨s₁, v, s₂, hv⟩ := hq ds e fs heq ⟨d, hd, hden.transfer L.host_steady hh s⟩
    fun d hd hden => hds d hd (hden.transfer hh L.host_steady ())
  obtain ⟨t, ht, -⟩ := (hh.eval_agrees L.host_steady e c s₁ () trivial).of_ok hv
  exact ⟨(), v, t, ht⟩

/-- What a host treats as its types and marks say, its library does. -/
theorem Expr.Fair.library {chance : String → Bool} (hh : h.Steady L) (s : σ) {e : Expr}
    (hf : e.Fair h chance S c) : e.Fair L.host chance S c := by
  have heval (d : Expr) (c : Context) (t : Unit) (v : Value) (t' : Unit)
      (hv : d.eval L.host c t = (.ok v, t')) : ∃ s s', d.eval h c s = (.ok v, s') := by
    obtain ⟨s', hs', -⟩ := (L.host_steady.eval_agrees hh d c t s trivial).of_ok hv
    exact ⟨s, s', hs'⟩
  have hinvoke {fn : ExternalFn} {vs : List Value} {info : CallInfo} {t t' : Unit} {v : Value}
      (hv : L.host.invoke fn vs info t = (.ok v, t')) :
      ∃ s', h.invoke fn vs info s = (.ok v, s') := by
    have hag : Agree (fun _ _ => True) (L.host.invoke fn vs info t) (h.invoke fn vs info s) :=
      (L.host_steady.agrees hh).invoke rfl trivial trivial
    obtain ⟨s', hs', -⟩ := hag.of_ok hv
    exact ⟨s', hs'⟩
  refine ⟨hf.conforming.transfer (fun e c hn => ?_) heval,
    hf.scored.transfer (fun e c hn => ?_) heval, hf.candid⟩
  · cases e with
    | external fn es tail span =>
      intro vs info t v t' hv
      obtain ⟨s', hs'⟩ := hinvoke hv
      exact hn vs info s v s' hs'
    | var x span => exact hn
    | _ => trivial
  · cases e with
    | external fn es tail span =>
      intro vs info t v t' hv
      obtain ⟨s', hs'⟩ := hinvoke hv
      exact hn vs info s v s' hs'
    | var x span => exact hn
    | literal v => exact hn
    | _ => trivial

/-! ## Optimisation -/

/-- Under a library, optimisation keeps the truth of a connective over negations. -/
theorem optimizeConnective_negations (hS : Score.Closed S) {es args : List Expr}
    (hn : negated? es = some args) (hne : es ≠ []) (hes : ∀ e ∈ es, e.Settled)
    (hf : ∀ e ∈ es, e.Fair L.host (fun _ => false) S c)
    (hq : k = .conjunction → QuietBehindScores L.host c es) {v : Value}
    (hv : (Expr.connective k es span).eval L.host c () = (.ok v, ())) :
    ∃ d, (optimizeConnective k es span).value = .ok d ∧ ∃ a b : Truth, v = .ofTruth a ∧
      a.value = b.value ∧ d.eval L.host c () = (.ok (.ofTruth b), ()) := by
  have hh := L.host_draws
  have hyields : ∀ e ∈ es, e.YieldsScored L.host S c := fun e he => (hf e he).yields hS
  obtain ⟨a, rfl, hr⟩ := Connective.run_of_eval hS hh hyields hv
  rcases connectiveStep_negations k span hn hne with ⟨e, he, hstep⟩ | hstep
  · have hrun : k.run L.host c [e] () = some (k.stage c.scoring a, ()) := by
      have hkeep : k.run L.host c (dropDuplicates k [] es).value () = some (_, ()) :=
        dropDuplicates_keeps hh (List.forall_mem_nil _) hf () _ hr
      rwa [he] at hkeep
    have hmem : e ∈ es := (dropDuplicates_sublist [] es).subset (he ▸ List.mem_singleton_self e)
    obtain ⟨d, hd, b, hland, hst⟩ := optimizeBoolean_run hS (hes e hmem) (hf e hmem) hrun span
    rw [hd] at hstep
    refine ⟨d, ?_, a, b, rfl, ?_, hland.eval⟩
    · simp only [optimizeConnective, rounds]
      rw [Attempt.andThen_of_ok hstep]
      rfl
    · rw [← k.truth_stage c.scoring a, ← hst, k.truth_stage]
  · obtain ⟨hsettled, hsize⟩ := connectiveStep_within hes hstep
    have hargs : ∀ e ∈ args, e.Fair L.host (fun _ => false) S c :=
      negated?_forall_mem (fun _ _ he => he.argument) hn hf
    have hsub := dropDuplicates_sublist (c := k.opposite) [] args
    obtain ⟨st, hrun, htruth⟩ := run_opposite hn hq hr
    have hrun : k.opposite.run L.host c (dropDuplicates k.opposite [] args).value () =
        some (st, ()) := dropDuplicates_keeps hh (List.forall_mem_nil _) hargs () _ hrun
    have hmixed : k.opposite.Mixed (dropDuplicates k.opposite [] args).value :=
      negated?_mixed hn hne hes
    obtain ⟨d, hd, b, hland, hst⟩ := rounds_run hS hh hsize hsettled
      (fun e he => hargs e (hsub.subset he)) (.inr hmixed) hrun span
    obtain ⟨d', hd', t, ht, hland'⟩ :=
      optimizeNot_lands hS hland.settled hland.fair (ebv_of_eval hland.eval) span
    refine ⟨d', ?_, a, t, rfl, ?_, hland'.eval⟩
    · simp only [optimizeConnective, rounds]
      simp only [Attempt.andThen_of_ok hstep, Attempt.andThen_of_ok hd, Attempt.andThen_of_ok hd']
      rfl
    · rw [ht, ← k.opposite.truth_stage c.scoring b, hst, htruth, k.truth_stage, Bool.not_not]

/-- If a connective over compiled negations has a value, and no operand fails that only the
optimised connective gets to, optimisation succeeds, and what it leaves is evaluated to the same
truth. -/
theorem optimize_negations (hh : h.Steady L) {checks : Checks} {es : List Expr} (hne : es ≠ [])
    (hcompiled : ∀ e ∈ es, ∃ d : Expr, (d.compile checks).value = .ok e)
    (hnot : ∀ e ∈ es, e.kind = .negation)
    (hcandid : ∀ e ∈ es, e.Every (Expr.Candid fun _ => false))
    (hconform : ∀ e ∈ es, e.Throughout h (Expr.Conforming h) c)
    (hscored : ∀ e ∈ es, e.Throughout h (Expr.Scored h Score.Admitted) c)
    (hquiet : k = .conjunction → QuietBehindScores h c es) {s s' : σ} {v : Value}
    (hv : (Expr.connective k es span).eval h c s = (.ok v, s')) :
    ∃ e, (Expr.connective k es span).optimize.value = .ok e ∧ ∃ a b : Truth, v = .ofTruth a ∧
      a.value = b.value ∧ ∀ t, (e.eval h c t).1 = .ok (.ofTruth b) := by
  have hsettled : ∀ e ∈ es, e.Settled := by
    intro e he
    obtain ⟨d, hd⟩ := hcompiled e he
    exact Expr.compile_settled hd
  obtain ⟨args, hn⟩ : ∃ args, negated? es = some args := by
    cases hn : negated? es with
    | some args => exact ⟨args, rfl⟩
    | none =>
      obtain ⟨e, he, hk⟩ := negated?_eq_none hn
      exact absurd (hnot e he) hk
  obtain ⟨⟨⟩, hv, -⟩ := (hh.eval_agrees L.host_steady _ c s () trivial).of_ok hv
  have hf (e : Expr) (he : e ∈ es) : e.Fair L.host (fun _ => false) Score.Admitted c :=
    Expr.Fair.library hh s ⟨hconform e he, hscored e he, hcandid e he⟩
  obtain ⟨d, hd, a, b, rfl, hab, hd'⟩ := optimizeConnective_negations Score.closed_admitted hn hne
    hsettled hf (fun hk => (hquiet hk).library hh s) hv
  refine ⟨d, hd, a, b, rfl, hab, fun t => ?_⟩
  obtain ⟨t', ht, -⟩ := (L.host_steady.eval_agrees hh d c () t trivial).of_ok hd'
  rw [ht]

/-- Of two negations, the first is false for something scored, and the second is true. -/
theorem optimize_negations_scored :
    let call (n : String) : Expr := .external ⟨0, n, .booleanOne, true⟩ [] false .unknown
    let e : Expr := .connective .conjunction
      [.call .not (call "found") .unknown, .call .not (call "lost") .unknown] .unknown
    let h := Library.host fun n _ =>
      some (if n = "found" then .ofTruth (.scored half) else .ofBool false)
    (∃ d, e.optimize.value = .ok d ∧ ∃ b : Truth, b.value = false ∧
      ∀ t, (d.eval h (.empty true) t).1 = .ok (.ofTruth b)) ∧
    e.optimize.value = .ok (.call .not
      (.connective .disjunction [call "found", call "lost"] .unknown) .unknown) := by
  intro call e h
  have hinvoke : ∀ {fn vs info s v s'}, h.invoke fn vs info s = (.ok v, s') →
      v = .ofTruth (.scored half) ∨ v = .ofBool false := by
    intro fn vs info s v s' hv
    obtain ⟨hv, -⟩ := Prod.mk.inj hv
    cases hv
    by_cases hn : fn.name = "found" <;> simp [hn]
  have hfair (n : String) : (Expr.call .not (call n) .unknown).Fair h (fun _ => false)
      Score.Admitted (.empty true) := by
    refine .call ⟨.external ?_ (by simp), .external ?_ (by simp),
      Expr.every_external.mpr ⟨fun _ => rfl, by simp⟩⟩
    · intro vs info s v s' hv
      rcases hinvoke hv with rfl | rfl <;> rfl
    · intro vs info s v s' hv
      rcases hinvoke hv with rfl | rfl
      · exact Value.scoredIn_ofTruth.mpr (.inl half_proper)
      · exact Score.closed_admitted.ofBool false
  have hcompiled (n : String) : ∃ d : Expr, (d.compile fun _ _ _ => .ok ()).value =
      .ok (.call .not (call n) .unknown) := ⟨.call .not (call n) .unknown, rfl⟩
  have heval (n : String) : ∃ s v s',
      (Expr.call .not (call n) .unknown).eval h (.empty true) s = (.ok v, s') := by
    by_cases hn : n = "found"
    · exact ⟨(), .ofBool false, (), by subst hn; rfl⟩
    · exact ⟨(), .ofBool true, (), by simp [Expr.eval, evalArgs, call, h, Library.host, hn]; rfl⟩
  have hquiet : QuietBehindScores h (.empty true)
      [.call .not (call "found") .unknown, .call .not (call "lost") .unknown] := by
    rintro ds d fs heq - -
    have hd : d ∈ [Expr.call .not (call "found") .unknown, .call .not (call "lost") .unknown] :=
      heq ▸ List.mem_append_right _ (List.mem_cons_self ..)
    rcases List.mem_pair.mp hd with rfl | rfl
    · exact heval "found"
    · exact heval "lost"
  have hboth {P : Expr → Prop} (hP : ∀ n, P (.call .not (call n) .unknown)) : ∀ d ∈
      [Expr.call .not (call "found") .unknown, .call .not (call "lost") .unknown], P d :=
    List.forall_mem_cons.mpr ⟨hP _, List.forall_mem_singleton.mpr (hP _)⟩
  have hvalue : e.eval h (.empty true) () = (.ok (.ofBool false), ()) := rfl
  obtain ⟨d, hd, a, b, ha, hab, hall⟩ := optimize_negations (Library.host_steady _) (by simp)
    (hboth hcompiled) (hboth fun _ => rfl) (hboth fun n => (hfair n).candid)
    (hboth fun n => (hfair n).conforming) (hboth fun n => (hfair n).scored) (fun _ => hquiet) hvalue
  cases ha
  exact ⟨⟨d, hd, b, hab.symm, hall⟩, rfl⟩

/-- Behind a scored answer the disjunction of the arguments goes on, to one that fails. -/
theorem optimize_fails_factored :
    let call (n : String) : Expr := .external ⟨0, n, .booleanOne, true⟩ [] false .unknown
    let e : Expr := .connective .conjunction
      [.call .not (call "found") .unknown, .call .not (call "lost") .unknown] .unknown
    let h := Library.host fun n _ => if n = "found" then some (.ofTruth (.scored half)) else none
    e.eval h (.empty true) () = (.ok (.ofBool false), ()) ∧
      ∃ d t, e.optimize.value = .ok d ∧ d.eval h (.empty true) () = (.error t, ()) := by
  intro call e h
  have hfail : ((Expr.call .not (.connective .disjunction [call "found", call "lost"] .unknown)
      .unknown).eval h (.empty true) ()).1.toOption = none := by decide +kernel
  rcases hd : (Expr.call .not (.connective .disjunction [call "found", call "lost"] .unknown)
      .unknown).eval h (.empty true) () with ⟨t | v, s⟩
  · exact ⟨rfl, _, t, rfl, hd⟩
  · rw [hd] at hfail
    cases hfail

end
end QueryExpr
