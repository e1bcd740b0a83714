import QueryExpr.Proofs.Landing
import QueryExpr.Proofs.NormalForm

/-!
# QueryExpr.Proofs.ScoringOff

Connectives while scoring is switched off.

* `connective_off`    — a connective looks at the switch, and then yields a plain truth value.
* `Expr.Scoreless`    — no scored value is handed on to what an expression yields.
* `Expr.StandsIn`     — what compilation leaves in the place of a connective.
* `rounds_standsIn`   — no rewriting of a connective leaves anything else.
* `compile_plain`     — what is left yields plain truth values as long as it is scoreless.

Nothing but a connective looks at the switch. Where compilation leaves an operand in its place, the
operand hands on the score that the connective would have dropped.
-/

namespace QueryExpr

section
variable {σ : Type} {h : Host σ} {c : Context} {k : Connective} {span : Span} {checks : Checks}

/-! ## Evaluation -/

theorem evalAll_off (hc : c.scoring = false) {es : List Expr} {s s' : σ} {v : Value}
    (hv : evalAll h es c .zero s = (.ok v, s')) : ∃ b, v = .ofBool b := by
  induction es generalizing s with
  | nil => cases hv; exact ⟨true, rfl⟩
  | cons e es ih =>
    rw [evalAll_steps] at hv
    obtain ⟨_, s₁, -, hv⟩ := onward_eq_ok.mp hv
    obtain ⟨b, s₂, -, hv⟩ := onward_eq_ok.mp hv
    split at hv
    · rw [hc] at hv; exact ih hv
    · cases hv; exact ⟨false, rfl⟩

theorem evalAny_off (hc : c.scoring = false) {es : List Expr} {s s' : σ} {v : Value}
    (hv : evalAny h es c none s = (.ok v, s')) : ∃ b, v = .ofBool b := by
  induction es generalizing s with
  | nil => cases hv; exact ⟨false, rfl⟩
  | cons e es ih =>
    rw [evalAny_steps] at hv
    obtain ⟨_, s₁, -, hv⟩ := onward_eq_ok.mp hv
    obtain ⟨b, s₂, -, hv⟩ := onward_eq_ok.mp hv
    split at hv
    · rw [if_pos (by simp [hc])] at hv
      cases hv
      exact ⟨true, rfl⟩
    · exact ih hv

theorem connective_off (hc : c.scoring = false) {es : List Expr} {s s' : σ} {v : Value}
    (hv : (Expr.connective k es span).eval h c s = (.ok v, s')) : ∃ b, v = .ofBool b := by
  cases k with
  | conjunction => exact evalAll_off hc hv
  | disjunction => exact evalAny_off hc hv

/-- A node that yields what something else yields: a result of a case, a bound value, or what a
function answers. -/
def Expr.HandsOn : Expr → Prop
  | .switch _ _ _ _ => True
  | .typeswitch _ _ _ => True
  | .var _ _ => True
  | .external _ _ _ _ => True
  | _ => False

/-- No scored value is handed on to what an expression yields, in any context in which evaluation
may come across one. A connective hands on none while scoring is off. -/
inductive Expr.Scoreless (h : Host σ) : Expr → Context → Prop where
  | answer {e : Expr} {c : Context} : e.Answers → Scoreless h e c
  | cast {e : Expr} {t : SeqType} {span : Span} {c : Context} : Scoreless h (.cast e t span) c
  | connective {k : Connective} {es : List Expr} {span : Span} {c : Context} :
    Scoreless h (.connective k es span) c
  | boolean {e : Expr} {span : Span} {c : Context} : e.Scoreless h c →
    Scoreless h (.call .boolean e span) c
  | switch {e d : Expr} {cs : List (Expr × Expr)} {span : Span} {c : Context} :
    (∀ p ∈ cs, p.2.Scoreless h c) → d.Scoreless h c → Scoreless h (.switch e cs d span) c
  | typeswitch {e : Expr} {cs : List (CaseHead × Expr)} {span : Span} {c : Context} :
    (∀ s v s', e.eval h c s = (.ok v, s') → ∀ p ∈ cs, p.1.admits v = true →
      p.2.Scoreless h (p.1.bind v c)) → Scoreless h (.typeswitch e cs span) c
  | literal {v : Value} {c : Context} : v.Unscored → Scoreless h (.literal v) c
  | var {x : Var} {span : Span} {c : Context} :
    (∀ v, c.lookup x.id = some v → v.Unscored) → Scoreless h (.var x span) c
  | external {fn : ExternalFn} {es : List Expr} {tail : Bool} {span : Span} {c : Context} :
    (∀ vs info s v s', h.invoke fn vs info s = (.ok v, s') → v.Unscored) →
    Scoreless h (.external fn es tail span) c

/-- While scoring is off, an expression that hands on no scored value yields none. -/
theorem Expr.Scoreless.eval_unscored {e : Expr} (he : e.Scoreless h c) (hc : c.scoring = false)
    {s s' : σ} {v : Value} (hv : e.eval h c s = (.ok v, s')) : v.Unscored := by
  induction he generalizing s s' v with
  | answer ha =>
    obtain ⟨b, rfl⟩ := Expr.Answers.eval_ofBool hv ha
    exact Value.unscored_ofBool b
  | cast =>
    obtain ⟨u, -, hcast⟩ := Expr.eval_eq_ok.mp hv
    exact Value.cast_unscored hcast
  | connective =>
    obtain ⟨b, rfl⟩ := connective_off hc hv
    exact Value.unscored_ofBool b
  | boolean _ ih =>
    obtain ⟨b, hb, rfl⟩ := eval_call_eq_ok.mp hv
    obtain ⟨w, hw, hb⟩ := ebv_eq_ok.mp hb
    exact Value.unscored_singleton.mpr (congrArg Truth.score ((ih hc hw).ebv hb))
  | switch _ _ ihr ihd =>
    rcases eval_switch_eq_ok hv with ⟨s₁, hv⟩ | ⟨p, hp, s₁, s₂, hr⟩
    · exact ihd hc hv
    · exact ihr p hp hc hr
  | typeswitch _ ihcs =>
    obtain ⟨u, s₁, hu, p, hp, hadm, s₂, s₃, hr⟩ := eval_typeswitch_eq_ok hv
    refine ihcs _ _ _ hu p hp hadm ?_ hr
    unfold CaseHead.bind
    split <;> exact hc
  | literal hn => cases hv; exact hn
  | var hn => exact hn _ (Expr.eval_eq_ok.mp hv).2
  | external hn =>
    obtain ⟨vs, s₁, -, hi⟩ := Expr.eval_eq_ok.mp hv
    exact hn vs _ s₁ v s' hi

/-- What compilation leaves in the place of a connective: a plain literal, or some other node that
is statically one boolean. -/
def Expr.StandsIn (e : Expr) : Prop :=
  (∃ b, e = .ofBool b) ∨ (e.literal? = none ∧ e.type = .booleanOne)

theorem Expr.StandsIn.eval_truth {e : Expr} (he : e.StandsIn) (hs : e.Settled)
    (hconf : e.HandsOn → e.Throughout h (Conforming h) c) (hc : c.scoring = false) {s s' : σ}
    {v : Value} (hv : e.eval h c s = (.ok v, s')) : ∃ b : Truth, v = .ofTruth b := by
  have hands (hh : e.HandsOn) : ∃ b : Truth, v = .ofTruth b := by
    obtain ⟨b, rfl⟩ | ⟨-, ht⟩ := he
    · exact hh.elim
    · exact SeqType.booleanOne_admits (ht ▸ eval_conforms (hconf hh) hs.castsRight hv)
  cases e with
  | connective k es span =>
    obtain ⟨b, rfl⟩ := connective_off hc hv
    exact ⟨.plain b, rfl⟩
  | cast e t span =>
    obtain ⟨b, hb⟩ | ⟨-, ht⟩ := he
    · cases hb
    · obtain rfl : t = .booleanOne := ht
      obtain ⟨u, -, hcast⟩ := Expr.eval_eq_ok.mp hv
      exact SeqType.booleanOne_admits (SeqType.castTarget_admits (by decide) hcast)
  | call fn e span =>
    obtain ⟨b, -, rfl⟩ := eval_call_eq_ok.mp hv
    cases fn with
    | boolean => exact ⟨b, rfl⟩
    | not => exact ⟨.plain _, rfl⟩
  | compare op l r span =>
    obtain ⟨b, rfl⟩ := Expr.Answers.eval_ofBool hv trivial
    exact ⟨.plain b, rfl⟩
  | range b e span =>
    obtain ⟨b, rfl⟩ := Expr.Answers.eval_ofBool hv trivial
    exact ⟨.plain b, rfl⟩
  | position a b span =>
    obtain ⟨b, rfl⟩ := Expr.Answers.eval_ofBool hv trivial
    exact ⟨.plain b, rfl⟩
  | literal w =>
    obtain ⟨b, hb⟩ | ⟨hl, -⟩ := he
    · cases hb; cases hv; exact ⟨.plain b, rfl⟩
    · cases hl
  | failing cause t span => cases hv
  | _ => exact hands trivial

/-! ## Optimisation -/

theorem asCondition_literal {e : Expr} (he : e.Settled) {v : Value}
    (h : e.asCondition.value = .literal v) : e = .literal v := by
  by_cases hk : e.kind = .boolean
  · obtain ⟨arg, s, rfl⟩ := (@Expr.kind_eq_call .boolean e).mp hk
    obtain ⟨⟨hl, hk, -⟩, -⟩ := Expr.every_call.mp he
    have hcore : arg.asCondition.value = .literal v := h
    rw [asCondition_of_kind hk] at hcore
    rw [show arg = .literal v from hcore] at hl
    cases hl
  · rw [asCondition_of_kind hk] at h
    exact h

theorem optimizeBoolean_standsIn {e d : Expr} (hs : e.Settled)
    (he : ∀ v, e = .literal v → ∃ b, e = .ofBool b) (h : (optimizeBoolean e span).value = .ok d) :
    d.StandsIn := by
  rcases optimizeBoolean_eq_ok h with ⟨v, b, hv, hb, rfl⟩ | ⟨rfl, ht⟩ | ⟨rfl, -⟩
  · obtain rfl := asCondition_literal hs hv
    obtain ⟨b', heq⟩ := he v rfl
    cases heq
    cases hb
    exact .inl ⟨b', rfl⟩
  · cases hl : e.asCondition.value.literal? with
    | none => exact .inr ⟨hl, ht⟩
    | some v =>
      have hv := Expr.literal?_eq_some.mp hl
      obtain rfl := asCondition_literal hs hv
      exact .inl (he v rfl)
  · exact .inr ⟨rfl, rfl⟩

theorem optimizeNot_standsIn {e d : Expr} (hs : e.Settled)
    (h : (optimizeNot e span).value = .ok d) : d.StandsIn := by
  have hcore := asCondition_settled hs
  rcases optimizeNot_eq_ok h with ⟨v, b, -, -, rfl⟩ | ⟨inner, s, hv, hd⟩ | ⟨rfl, -⟩
  · exact .inl ⟨_, rfl⟩
  · rw [hv] at hcore
    obtain ⟨⟨hl, -, -⟩, hinner⟩ := Expr.every_call.mp hcore
    refine optimizeBoolean_standsIn hinner (fun v hv => ?_) hd
    rw [hv] at hl
    cases hl
  · exact .inr ⟨rfl, rfl⟩

theorem connectiveStep_standsIn {es : List Expr} (hes : ∀ e ∈ es, e.Settled) {d : Expr}
    (h : (connectiveStep k es span).value = .ok (.done d)) : d.StandsIn := by
  obtain ⟨kept, hk, h⟩ := Attempt.andThen_eq_ok.mp h
  have hsel := selectOperands_selected hes hk
  split at h
  · cases h; exact .inl ⟨_, rfl⟩
  · obtain ⟨-, hv⟩ := hsel.literal_last [] _ [] rfl
    cases h
    exact .inl ⟨_, hv⟩
  · have hlit : ∀ v, Expr.literal v ∈ kept → Expr.literal v = .ofBool k.absorbing := by
      intro v hv
      obtain ⟨ds, fs, heq⟩ := List.append_of_mem hv
      exact (hsel.literal_last ds v fs heq).2
    have hms := combined_literal hlit
    have hsettled : ∀ e ∈ (mergeAdjacent k (dropDuplicates k [] kept).value).value, e.Settled := by
      have hus : ∀ e ∈ (dropDuplicates k [] kept).value, e.Settled :=
        fun e he => hsel.settled e ((dropDuplicates_sublist [] kept).subset he)
      cases hu : (dropDuplicates k [] kept).value with
      | nil => nofun
      | cons u us =>
        rw [hu] at hus
        obtain ⟨hu, hus⟩ := List.forall_mem_cons.mp hus
        exact mergeOnto_settled hu hus
    rcases combineOperands_cases k kept span rfl rfl with
      ⟨-, hv⟩ | ⟨e, he, hv⟩ | ⟨args, -, hv⟩ | ⟨-, -, -, hv⟩
    · cases hv.symm.trans h
    · rw [he] at hms hsettled
      rw [hv] at h
      cases hb : (optimizeBoolean e span).value with
      | error t => rw [hb] at h; cases h
      | ok d' =>
        rw [hb] at h
        cases h
        refine optimizeBoolean_standsIn (hsettled e (List.mem_singleton_self e)) ?_ hb
        rintro v rfl
        exact ⟨_, hms v (List.mem_singleton_self _)⟩
    · cases hv.symm.trans h
    · cases hv.symm.trans h
      exact .inr ⟨rfl, rfl⟩

theorem rounds_standsIn {fuel : Nat} {es : List Expr} (hf : sizeList es < fuel)
    (hes : ∀ e ∈ es, e.Settled) {d : Expr} (h : (rounds fuel k es span).value = .ok d) :
    d.StandsIn := by
  induction fuel generalizing k es d with
  | zero => omega
  | succ fuel ih =>
    simp only [rounds] at h
    obtain ⟨r, hstep, h⟩ := Attempt.andThen_eq_ok.mp h
    have hwithin : r.Within (sizeList es) := connectiveStep_within hes hstep
    cases r with
    | done e => cases h; exact connectiveStep_standsIn hes hstep
    | again fs => exact ih (Nat.lt_of_lt_of_le hwithin.2 (Nat.le_of_lt_succ hf)) hwithin.1 h
    | negation fs =>
      obtain ⟨e, he, h⟩ := Attempt.andThen_eq_ok.mp h
      obtain ⟨e', he', h⟩ := Attempt.andThen_eq_ok.mp h
      have hreach : Reaches (fun _ _ _ => .ok ()) [] _ (rounds fuel k.opposite fs span).value :=
        rounds_reaches (Nat.lt_of_lt_of_le hwithin.2 (Nat.le_of_lt_succ hf)) hwithin.1
      cases h
      exact optimizeNot_standsIn (hreach.settled e he) he'

/-! ## Compilation -/

theorem compile_standsIn {es : List Expr} {d : Expr}
    (h : ((Expr.connective k es span).compile checks).value = .ok d) : d.StandsIn := by
  simp only [Expr.compile] at h
  obtain ⟨fs, hfs, h⟩ := Attempt.andThen_eq_ok.mp h
  have hsettled : ∀ e ∈ fs, e.Settled :=
    ((compileOperands_row (K := []) (isRow_connective k span) fun e _ =>
      e.compile_reaches).2 fs hfs).2
  exact rounds_standsIn (Nat.lt_succ_self _) hsettled h

/-- While scoring is off, what a compiled connective yields is one plain boolean, as without
compilation; unless what is left in its place hands on a scored value, or one not of its type. -/
theorem compile_plain (hc : c.scoring = false) {es : List Expr} {d : Expr}
    (hd : ((Expr.connective k es span).compile checks).value = .ok d) (hless : d.Scoreless h c)
    (hconf : d.HandsOn → d.Throughout h (Expr.Conforming h) c) :
    (∀ s v s', d.eval h c s = (.ok v, s') → ∃ b, v = .ofBool b) ∧
      ∀ s v s', (Expr.connective k es span).eval h c s = (.ok v, s') → ∃ b, v = .ofBool b := by
  refine ⟨fun s v s' hv => ?_, fun _ _ _ hv => connective_off hc hv⟩
  obtain ⟨b, rfl⟩ := (compile_standsIn hd).eval_truth (Expr.compile_settled hd) hconf hc hv
  have hscore : b.score = .zero :=
    Value.unscored_singleton.mp (hless.eval_unscored hc hv)
  exact ⟨b.value, congrArg Value.ofTruth (Truth.eq_plain hscore)⟩

/-- Of two calls one is left, in the place of a conjunction, and its answer has no score. -/
theorem compile_plain_repeated :
    let ready : Expr := .external ⟨0, "open", .booleanOne, true⟩ [] false .unknown
    let e : Expr := .connective .conjunction [ready, ready] .unknown
    let h := Library.host fun _ _ => some (.ofBool true)
    (e.compile fun _ _ _ => .ok ()).value = .ok ready ∧
      ∀ s v s', ready.eval h (.empty false) s = (.ok v, s') → ∃ b, v = .ofBool b := by
  intro ready e h
  have hinvoke : ∀ {fn vs info s v s'}, h.invoke fn vs info s = (.ok v, s') → v = .ofBool true := by
    intro fn vs info s v s' hv
    cases hv
    rfl
  have hcompiled : (e.compile fun _ _ _ => .ok ()).value = .ok ready := rfl
  refine ⟨hcompiled, (compile_plain rfl hcompiled (.external ?_) fun _ => .external ?_ (by simp)).1⟩
  · intro vs info s v s' hv
    rw [hinvoke hv]
    exact Value.unscored_ofBool true
  · intro vs info s v s' hv
    rw [hinvoke hv]
    rfl

/-- A function is left in the place of a conjunction, which drops the score of its answer. -/
theorem compile_hands_on_score :
    let found : Expr := .external ⟨0, "found", .booleanOne, true⟩ [] false .unknown
    let e : Expr := .connective .conjunction [found] .unknown
    let h := Library.host fun _ _ => some (.ofTruth (.scored half))
    e.eval h (.empty false) () = (.ok (.ofBool true), ()) ∧
      (e.compile fun _ _ _ => .ok ()).value = .ok found ∧
      found.eval h (.empty false) () = (.ok (.ofTruth (.scored half)), ()) ∧
      ¬ ∃ b, Value.ofTruth (.scored half) = .ofBool b := by
  refine ⟨rfl, rfl, rfl, ?_⟩
  rintro ⟨b, hb⟩
  have hzero : half = .zero := by
    injection hb with hi
    injection hi with ht
    exact congrArg Truth.score ht
  exact absurd (congrArg Score.isZero hzero) (by decide +kernel)

end
end QueryExpr
