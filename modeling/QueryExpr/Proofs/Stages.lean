import QueryExpr.Proofs.Flatten
import QueryExpr.Proofs.Throughout

/-!
# QueryExpr.Proofs.Stages

How the operands of a connective are evaluated one after the other, with the state of the host.

* `Stage`               — what is known of a connective after some operands. A scored operand of a
  disjunction that is true does not end the evaluation, although it settles the truth.
* `Connective.run`      — the stage and the state after a row of operands; `none` stands for an
  error.
* `Connective.run_append` — rows are run one after the other.
* `Connective.eval_run` — evaluation of a connective is the run of its operands.
* `Host.Draws`          — hosts with functions of which some are a matter of chance; the others give
  one answer and leave the state as it is.

What is proved of runs holds of the sequence of draws as well, since it is part of the state.
-/

namespace QueryExpr

/-! ## Stages -/

/-- What is known of a connective after some of its operands. -/
inductive Stage where
  /-- No later operand is evaluated. -/
  | decided
  /-- Later operands are evaluated. `met`: an operand had the value that decides, but with a score,
  to which later ones may add. -/
  | pending (met : Bool)

/-- A stage after one that is pending. -/
def Stage.after (met : Bool) : Stage → Stage
  | .decided => .decided
  | .pending met' => .pending (met || met')

/-- The truth of a connective that ends in a stage. -/
def Stage.truth (k : Connective) : Stage → Bool
  | .decided => k.absorbing
  | .pending met => met == k.absorbing

@[simp] theorem Stage.after_false (t : Stage) : t.after false = t := by
  cases t <;> simp [after]

theorem Stage.after_after (a b : Bool) (t : Stage) : (t.after b).after a = t.after (a || b) := by
  cases t <;> simp [after, Bool.or_assoc]

namespace Connective

/-- The stage after one operand. -/
def stage (k : Connective) (scoring : Bool) (b : Truth) : Stage :=
  if b.value = k.absorbing then
    if k = .conjunction || b.score.isZero || !scoring then .decided else .pending true
  else .pending false

/-- The stage of an operand tells its truth. -/
theorem truth_stage (k : Connective) (scoring : Bool) (b : Truth) :
    (k.stage scoring b).truth k = b.value := by
  unfold stage
  split
  · rename_i hb
    split <;> simp [Stage.truth, hb]
  · rename_i hb
    cases hv : b.value <;> cases hk : k.absorbing <;> simp_all [Stage.truth]

theorem stage_plain (k : Connective) (scoring b : Bool) :
    k.stage scoring (.plain b) = if b = k.absorbing then .decided else .pending false := by
  have hz : (Truth.plain b).score.isZero = true := rfl
  simp only [stage, hz, Bool.or_true, Bool.true_or, if_true]
  rfl

/-- Unscored operands of one stage are one truth. -/
theorem eq_of_stage {k : Connective} {scoring : Bool} {a b : Truth}
    (hst : k.stage scoring a = k.stage scoring b) (ha : a.score = .zero) (hb : b.score = .zero) :
    a = b := by
  have hv : a.value = b.value := by
    rw [← k.truth_stage scoring a, hst, k.truth_stage]
  cases a; cases b; cases hv; cases ha; cases hb; rfl

section
variable {σ : Type}

/-- What a run comes to after a stage that is pending. -/
def afterward (met : Bool) (o : Option (Stage × σ)) : Option (Stage × σ) :=
  o.map fun r => (r.1.after met, r.2)

/-- Goes on with later operands, unless the connective is decided. -/
def proceed (r : Stage × σ) (f : σ → Option (Stage × σ)) : Option (Stage × σ) :=
  match r.1 with
  | .decided => some r
  | .pending met => afterward met (f r.2)

/-- The stage and the state after operands, if none of them fails. -/
def run (k : Connective) (h : Host σ) (c : Context) : List Expr → σ → Option (Stage × σ)
  | [], s => some (.pending false, s)
  | e :: es, s =>
    match e.ebv h c s with
    | (.error _, _) => none
    | (.ok b, s) => proceed (k.stage c.scoring b, s) (run k h c es)

variable {k : Connective} {h : Host σ} {c : Context}

@[simp] theorem afterward_false (o : Option (Stage × σ)) : afterward false o = o := by
  cases o <;> simp [afterward]

theorem afterward_afterward (a b : Bool) (o : Option (Stage × σ)) :
    afterward a (afterward b o) = afterward (a || b) o := by
  cases o <;> simp [afterward, Stage.after_after]

theorem proceed_assoc (r : Stage × σ) (f g : σ → Option (Stage × σ)) :
    ((proceed r f).bind fun q => proceed q g) =
      proceed r fun s => (f s).bind fun q => proceed q g := by
  obtain ⟨t, s⟩ := r
  cases t with
  | decided => rfl
  | pending met =>
    simp only [proceed]
    rcases f s with _ | ⟨_ | met', s'⟩
    · rfl
    · rfl
    · exact (afterward_afterward met met' (g s')).symm

theorem proceed_nil (r : Stage × σ) : proceed r (run k h c []) = some r := by
  obtain ⟨t, s⟩ := r
  cases t with
  | decided => rfl
  | pending met => simp [proceed, afterward, run, Stage.after]

theorem run_cons_of_ok {e : Expr} {s s' : σ} {b : Truth} (hb : e.ebv h c s = (.ok b, s'))
    (es : List Expr) :
    k.run h c (e :: es) s = proceed (k.stage c.scoring b, s') (k.run h c es) := by
  rw [run, hb]

theorem run_cons_of_error {e : Expr} {s s' : σ} {t : EvalError} (ht : e.ebv h c s = (.error t, s'))
    (es : List Expr) : k.run h c (e :: es) s = none := by
  rw [run, ht]

theorem run_single_of_ok {e : Expr} {s s' : σ} {b : Truth} (hb : e.ebv h c s = (.ok b, s')) :
    k.run h c [e] s = some (k.stage c.scoring b, s') := by
  rw [run_cons_of_ok hb, proceed_nil]

/-- An operand that a run gets past has an effective boolean value. -/
theorem ebv_of_run {e : Expr} {es : List Expr} {s : σ} {r : Stage × σ}
    (hr : k.run h c (e :: es) s = some r) : ∃ b s', e.ebv h c s = (.ok b, s') := by
  rcases hb : e.ebv h c s with ⟨_ | b, s'⟩
  · rw [run_cons_of_error hb] at hr; cases hr
  · exact ⟨b, s', rfl⟩

/-- Rows of operands are run one after the other. -/
theorem run_append (ds es : List Expr) (s : σ) :
    k.run h c (ds ++ es) s = (k.run h c ds s).bind fun r => proceed r (k.run h c es) := by
  induction ds generalizing s with
  | nil =>
    simp only [List.nil_append, run, Option.bind_some, proceed, afterward_false]
  | cons d ds ih =>
    rw [List.cons_append]
    rcases hb : d.ebv h c s with ⟨_ | b, s'⟩
    · rw [run_cons_of_error hb, run_cons_of_error hb]; rfl
    · rw [run_cons_of_ok hb, run_cons_of_ok hb, proceed_assoc]
      congr 1
      funext s
      exact ih s

theorem run_cons (e : Expr) (es : List Expr) (s : σ) :
    k.run h c (e :: es) s = (k.run h c [e] s).bind fun r => proceed r (k.run h c es) :=
  run_append [e] es s

/-- A row that runs as one operand does can stand in its place. -/
theorem run_flatMap {f : Expr → List Expr} {es : List Expr}
    (hf : ∀ e ∈ es, ∀ s, k.run h c (f e) s = k.run h c [e] s) (s : σ) :
    k.run h c (es.flatMap f) s = k.run h c es s := by
  induction es generalizing s with
  | nil => rfl
  | cons e es ih =>
    obtain ⟨he, hes⟩ := List.forall_mem_cons.mp hf
    rw [List.flatMap_cons, run_append, he s, run_cons e es]
    congr 1
    funext r
    congr 1
    funext s
    exact ih hes s

/-- What one row of operands comes to, another one comes to as well. -/
def Keeps (k : Connective) (h : Host σ) (c : Context) (es fs : List Expr) : Prop :=
  ∀ s r, k.run h c es s = some r → k.run h c fs s = some r

namespace Keeps

theorem refl (es : List Expr) : k.Keeps h c es es := fun _ _ hr => hr

theorem trans {ds es fs : List Expr} (h₁ : k.Keeps h c ds es) (h₂ : k.Keeps h c es fs) :
    k.Keeps h c ds fs := fun s r hr => h₂ s r (h₁ s r hr)

/-- What stands in front does not matter. -/
theorem append_left {es fs : List Expr} (hk : k.Keeps h c es fs) (ds : List Expr) :
    k.Keeps h c (ds ++ es) (ds ++ fs) := by
  intro s r hr
  rw [run_append] at hr ⊢
  obtain ⟨q, hq, hr⟩ := Option.bind_eq_some_iff.mp hr
  rw [hq, Option.bind_some]
  obtain ⟨_ | met, s'⟩ := q
  · exact hr
  · obtain ⟨p, hp, rfl⟩ := Option.map_eq_some_iff.mp hr
    simp only [proceed, hk s' p hp, afterward, Option.map_some]

end Keeps

end

end Connective

/-! ## Evaluation -/

/-- A host that is not cancelled. A function whose name is no matter of chance yields what a library
says and leaves the state as it is; the others may yield anything. -/
structure Host.Draws {σ : Type} (h : Host σ) (chance : String → Bool) (L : Library) : Prop where
  poll : ∀ s, h.poll s = (false, s)
  steady : ∀ {f} vs i s, chance f.name = false →
    (h.invoke f vs i s).1.toOption = L f.name vs ∧ (h.invoke f vs i s).2 = s

theorem Library.host_draws (L : Library) : L.host.Draws (fun _ => false) L where
  poll _ := rfl
  steady := fun _ _ _ _ => ⟨L.host_steady.invoke _ _ _ _, rfl⟩

section
variable {σ : Type} {h : Host σ} {chance : String → Bool} {L : Library} {c : Context}
  {k : Connective}

theorem Host.Draws.check (hh : h.Draws chance L) (s : σ) : h.check s = (.ok (), s) := by
  simp only [Host.check, hh.poll]

/-- Functions that are no matter of chance yield the same in any two states. -/
theorem Host.Draws.agrees (hh : h.Draws chance L) (s₀ t₀ : σ) :
    h.Agrees h (fun s t => s = s₀ ∧ t = t₀) fun n => chance n = false where
  check := by
    rintro s t ⟨rfl, rfl⟩
    rw [hh.check, hh.check]
    exact .ok () ⟨rfl, rfl⟩
  invoke := by
    rintro f f' vs i i' s t hf hc ⟨rfl, rfl⟩
    obtain ⟨hx, hs⟩ := hh.steady vs i s hc
    obtain ⟨hy, ht⟩ := hh.steady vs i' t (hf ▸ hc)
    have ha := Agree.of_toOption (hx.trans (hf ▸ hy.symm)) (R := fun a b => a = s ∧ b = t)
      ⟨hs, ht⟩
    simpa using ha

/-! ## Boolean functions -/

theorem ebv_boolean (e : Expr) (span : Span) (s : σ) :
    (Expr.call .boolean e span).ebv h c s = e.ebv h c s := by
  rw [ebv_steps, eval_call_steps]
  rcases e.ebv h c s with ⟨_ | b, s'⟩ <;> rfl

theorem ebv_not {e : Expr} {s s' : σ} {b : Truth} (hb : e.ebv h c s = (.ok b, s')) (span : Span) :
    (Expr.call .not e span).ebv h c s = (.ok (.plain !b.value), s') :=
  ebv_eq_ok.mpr ⟨_, eval_call_eq_ok.mpr ⟨b, hb, rfl⟩, rfl⟩

/-- A negation has a truth only if what is negated has one. -/
theorem ebv_of_not {e : Expr} {span : Span} {s s' : σ} {b : Truth}
    (hb : (Expr.call .not e span).ebv h c s = (.ok b, s')) :
    ∃ a, e.ebv h c s = (.ok a, s') ∧ b = .plain !a.value := by
  obtain ⟨v, hv, hb⟩ := ebv_eq_ok.mp hb
  obtain ⟨a, ha, rfl⟩ := eval_call_eq_ok.mp hv
  cases hb
  exact ⟨a, ha, rfl⟩

/-! ## Connectives -/

/-- Evaluation ends as a run does: in an error, or in a truth of the same stage. -/
inductive Connective.Ends (k : Connective) (scoring : Bool) :
    Option (Stage × σ) → Except EvalError Value × σ → Prop where
  | failed (t : EvalError) (s : σ) : Ends k scoring none (.error t, s)
  | value (b : Truth) (s : σ) :
    Ends k scoring (some (k.stage scoring b, s)) (.ok (.ofTruth b), s)

theorem evalAll_run (hh : h.Draws chance L) (es : List Expr) (score : Score) (s : σ) :
    Connective.conjunction.Ends c.scoring (Connective.conjunction.run h c es s)
      (evalAll h es c score s) := by
  induction es generalizing score s with
  | nil =>
    have hst (r : Score) : Stage.pending false =
        Connective.conjunction.stage c.scoring (if r.isZero then .plain true else .scored r) := by
      split <;> rfl
    rw [Connective.run, hst score]
    exact .value _ s
  | cons e es ih =>
    rw [evalAll_steps, hh.check, onward_ok]
    rcases hb : e.ebv h c s with ⟨t | b, s'⟩
    · rw [Connective.run_cons_of_error hb]; exact .failed t s'
    · rw [Connective.run_cons_of_ok hb, onward_ok]
      cases hv : b.value with
      | false =>
        have hst : Connective.conjunction.stage c.scoring b = .decided := by
          simp [Connective.stage, hv, Connective.absorbing]
        rw [hst]
        simp only [Bool.false_eq_true, if_false]
        exact .value (.plain false) s'
      | true =>
        have hst : Connective.conjunction.stage c.scoring b = .pending false := by
          simp [Connective.stage, hv, Connective.absorbing]
        rw [hst]
        simp only [if_true, Connective.proceed, Connective.afterward_false]
        exact ih _ s'

/-- The score so far is that of the scored operands met so far. -/
theorem evalAny_run {S : Score → Prop} (hS : Score.Closed S)
    (hh : h.Draws chance L) {es : List Expr} (hes : ∀ e ∈ es, e.YieldsScored h S c)
    {score : Option Score}
    (hscore : ∀ r, score = some r → S r ∧ r.isZero = false ∧ c.scoring = true) (s : σ) :
    Connective.disjunction.Ends c.scoring
      (Connective.afterward score.isSome (Connective.disjunction.run h c es s))
      (evalAny h es c score s) := by
  induction es generalizing score s with
  | nil =>
    cases score with
    | none => exact .value (.plain false) s
    | some r =>
      obtain ⟨-, hz, hc⟩ := hscore r rfl
      have hst : Stage.pending true = Connective.disjunction.stage c.scoring (.scored r) := by
        simp [Connective.stage, Truth.scored, Connective.absorbing, hz, hc]
      simp only [Connective.run, Connective.afterward, Option.map_some, Stage.after,
        Option.isSome_some, Bool.true_or, hst]
      exact .value (.scored r) s
  | cons e es ih =>
    obtain ⟨he, hes⟩ := List.forall_mem_cons.mp hes
    rw [evalAny_steps, hh.check, onward_ok]
    rcases hb : e.ebv h c s with ⟨t | b, s'⟩
    · rw [Connective.run_cons_of_error hb]; exact .failed t s'
    · rw [Connective.run_cons_of_ok hb, onward_ok]
      have hSb : S b.score := hS.answer he hb
      cases hv : b.value with
      | false =>
        have hst : Connective.disjunction.stage c.scoring b = .pending false := by
          simp [Connective.stage, hv, Connective.absorbing]
        rw [hst]
        simp only [Bool.false_eq_true, if_false, Connective.proceed, Connective.afterward_false]
        exact ih hes hscore s'
      | true =>
        by_cases hz : (b.score.isZero || !c.scoring) = true
        · have hst : Connective.disjunction.stage c.scoring b = .decided := by
            simp only [Connective.stage, hv, Connective.absorbing, if_true, Bool.or_assoc, hz,
              Bool.or_true]
          rw [hst]
          simp only [hz, if_true]
          exact .value (.plain true) s'
        · have hz' : b.score.isZero = false ∧ c.scoring = true := by simpa using hz
          have hst : Connective.disjunction.stage c.scoring b = .pending true := by
            simp [Connective.stage, hv, Connective.absorbing, hz']
          have hstart : S (score.getD .zero) := by
            cases score with
            | none => exact hS.zero
            | some r => exact (hscore r rfl).1
          have hne := hS.either_isZero hstart hSb hz'.1
          have hnext : ∀ r, some ((score.getD .zero).either b.score) = some r →
              S r ∧ r.isZero = false ∧ c.scoring = true := by
            rintro _ ⟨⟩
            exact ⟨hS.either hstart hSb, hne, hz'.2⟩
          rw [hst]
          simp only [hz, if_true, Connective.proceed, Connective.afterward_afterward, Bool.or_true]
          exact ih hes hnext s'

/-- Evaluation of a connective is the run of its operands. -/
theorem Connective.eval_run {S : Score → Prop} (hS : Score.Closed S)
    (hh : h.Draws chance L) {es : List Expr}
    (hes : ∀ e ∈ es, e.YieldsScored h S c) (span : Span) (s : σ) :
    k.Ends c.scoring (k.run h c es s) ((Expr.connective k es span).eval h c s) := by
  cases k with
  | conjunction => simp only [Expr.eval]; exact evalAll_run hh es .zero s
  | disjunction =>
    have hnone : ∀ r : Score, none = some r → S r ∧ r.isZero = false ∧ c.scoring = true := by simp
    have hrun := evalAny_run hS hh hes hnone s
    rw [Option.isSome_none, afterward_false] at hrun
    simp only [Expr.eval]
    exact hrun

/-- A connective as an operand of one of its kind is run as its operands are. -/
theorem Connective.run_single {S : Score → Prop} (hS : Score.Closed S)
    (hh : h.Draws chance L) {es : List Expr}
    (hes : ∀ e ∈ es, e.YieldsScored h S c) (span : Span) (s : σ) :
    k.run h c [.connective k es span] s = k.run h c es s := by
  have hrun := eval_run (k := k) hS hh hes span s
  generalize ho : k.run h c es s = o at hrun
  generalize hx : (Expr.connective k es span).eval h c s = x at hrun
  cases hrun with
  | failed t s' =>
    have hebv : (Expr.connective k es span).ebv h c s = (.error t, s') := by rw [ebv_steps, hx]; rfl
    exact run_cons_of_error hebv []
  | value b s' =>
    have hebv : (Expr.connective k es span).ebv h c s = (.ok b, s') := by rw [ebv_steps, hx]; rfl
    exact run_single_of_ok hebv

/-- A connective that is evaluated to a truth value is run to a stage of this truth. -/
theorem Connective.run_of_eval {S : Score → Prop} (hS : Score.Closed S)
    (hh : h.Draws chance L) {es : List Expr}
    (hes : ∀ e ∈ es, e.YieldsScored h S c) {span : Span} {s s' : σ} {v : Value}
    (hv : (Expr.connective k es span).eval h c s = (.ok v, s')) :
    ∃ b, v = .ofTruth b ∧ k.run h c es s = some (k.stage c.scoring b, s') := by
  have hrun := eval_run (k := k) hS hh hes span s
  rw [hv] at hrun
  generalize ho : k.run h c es s = o at hrun
  cases hrun with
  | value b => exact ⟨b, rfl, rfl⟩

end
end QueryExpr
