import QueryExpr.Proofs.Placeless
import QueryExpr.Proofs.Refinement

/-!
# QueryExpr.Proofs.Verdict

What a logical expression yields, its errors included.

* `Replies`            — what external functions answer, by name and argument values.
* `Connective.decide`  — the result of a connective: that of the first operand that fails or
  decides.
* `Expr.outcome`       — the value of an expression, or its error without places.
* `Expr.IsLogical`     — the nodes of connectives over literals, variables and calls.
* `Expr.eval_outcome`, `Expr.ebv_verdict` — evaluation of such nodes, whatever the state of the
  host.

External functions may fail as they like, so an error shows which operand was evaluated last.
-/

namespace QueryExpr

/-! ## Connectives -/

/-- The result of a connective over those of its operands: that of the first one that fails or
decides. -/
def Connective.decide (k : Connective) : List (Except EvalError Bool) → Except EvalError Bool
  | [] => .ok !k.absorbing
  | x :: xs => x.bind fun b => if b = k.absorbing then .ok b else k.decide xs

namespace Connective

variable {k : Connective}

theorem decide_append (xs ys : List (Except EvalError Bool)) :
    k.decide (xs ++ ys) =
      (k.decide xs).bind fun b => if b = k.absorbing then .ok b else k.decide ys := by
  induction xs with
  | nil => cases k <;> rfl
  | cons x xs ih =>
    cases x with
    | error t => rfl
    | ok b =>
      by_cases hb : b = k.absorbing
      · simp [decide, Except.bind, hb]
      · simpa [decide, Except.bind, hb] using ih

/-- One operand has its own result. -/
theorem decide_singleton (x : Except EvalError Bool) : k.decide [x] = x := by
  cases x with
  | error t => rfl
  | ok b => cases b <;> cases k <;> rfl

/-- A connective among the operands of one of its kind is as good as its operands in a row. -/
theorem decide_flatMap {α : Type} (f : α → List (Except EvalError Bool)) (as : List α) :
    k.decide (as.flatMap f) = k.decide (as.map fun a => k.decide (f a)) := by
  induction as with
  | nil => rfl
  | cons a as ih => rw [List.flatMap_cons, decide_append, ih]; rfl

/-- Negation exchanges the two connectives, and leaves errors where they are. -/
theorem decide_negated (xs : List (Except EvalError Bool)) :
    k.decide (xs.map (·.map (!·))) = (k.opposite.decide xs).map (!·) := by
  induction xs with
  | nil => cases k <;> rfl
  | cons x xs ih =>
    cases x with
    | error t => rfl
    | ok b =>
      rw [List.map_cons, decide, decide, ih]
      cases b <;> cases k <;> rfl

/-- An operand that has the value of an earlier one does not matter. If that one fails, evaluation
does not get here. -/
theorem decide_repeated {x y : Except EvalError Bool} {xs : List (Except EvalError Bool)}
    (hy : y ∈ xs) (h : y.toOption = x.toOption) (zs : List (Except EvalError Bool)) :
    k.decide (xs ++ x :: zs) = k.decide (xs ++ zs) := by
  induction xs with
  | nil => cases hy
  | cons w xs ih =>
    rw [List.cons_append, List.cons_append, decide, decide]
    rcases List.mem_cons.mp hy with rfl | hy
    · cases y with
      | error t => rfl
      | ok b =>
        by_cases hb : b = k.absorbing
        · simp [Except.bind, hb]
        · have hx : x = .ok b := toOption_eq_some_iff.mp h.symm
          have hskip : k.decide (.ok b :: zs) = k.decide zs := by
            simp [decide, Except.bind, hb]
          simp only [Except.bind, hb, if_false, hx]
          rw [decide_append, decide_append, hskip]
    · rw [ih hy]

end Connective

/-! ## Outcomes -/

/-- What external functions answer, by name. -/
abbrev Replies := String → List Value → Except EvalError Value

/-- A host that is not cancelled and whose functions answer by name and arguments only, but for the
places of errors. -/
structure Host.Answers {σ : Type} (h : Host σ) (R : Replies) : Prop where
  poll : ∀ s, (h.poll s).1 = false
  invoke : ∀ fn vs info s, SameResult (h.invoke fn vs info s).1 (R fn.name vs)

namespace Replies

/-- What functions yield, if they do not fail. -/
def library (R : Replies) : Library := fun name vs => (R name vs).toOption

/-- A host without a state. -/
def still (R : Replies) : Host Unit := ⟨fun _ => (false, ()), fun fn vs _ _ => (R fn.name vs, ())⟩

theorem still_answers (R : Replies) : R.still.Answers R :=
  ⟨fun _ => rfl, fun _ _ _ _ => sameResult_iff.mpr rfl⟩

end Replies

theorem Host.Answers.steady {σ : Type} {h : Host σ} {R : Replies} (hh : h.Answers R) :
    h.Steady R.library where
  poll := hh.poll
  invoke fn vs info s := by
    have hi := sameResult_iff.mp (hh.invoke fn vs info s)
    rw [← toOption_placeless, hi, toOption_placeless]
    rfl

/-- The truth of a value, or the error that it has none. -/
def Value.truth (v : Value) : Except EvalError Bool := (v.ebv .unknown).map (·.value)

mutual

/-- The value of an expression in a context, or its error at no place. Nodes other than connectives,
calls, literals, variables and parked errors have what a host without a state evaluates them to. -/
def Expr.outcome (R : Replies) : Expr → Context → Except EvalError Value
  | .connective k es _, c => (connectiveOutcome R k es c).map .ofBool
  | .call fn e _, c =>
    (e.outcome R c).bind fun v => v.truth.map fun b => .ofBool (fn.answer b)
  | .literal v, _ => .ok v
  | .var x _, c =>
    match c.lookup x.id with
    | none => .error (.unboundVariable x.name .unknown)
    | some v => .ok v
  | .external fn es _ _, c =>
    (argOutcomes R es c).bind fun vs => placeless (R fn.name vs)
  | .failing cause _ _, _ => .error (EvalError.ofParked cause).unplaced
  | e, c => placeless (e.eval R.still c ()).1

def connectiveOutcome (R : Replies) (k : Connective) :
    List Expr → Context → Except EvalError Bool
  | [], _ => .ok !k.absorbing
  | e :: es, c =>
    ((e.outcome R c).bind Value.truth).bind fun b =>
      if b = k.absorbing then .ok b else connectiveOutcome R k es c

def argOutcomes (R : Replies) : List Expr → Context → Except EvalError (List Value)
  | [], _ => .ok []
  | e :: es, c => (e.outcome R c).bind fun v => (argOutcomes R es c).map (v :: ·)

end

/-- The truth of an expression, or its error at no place. -/
def Expr.verdict (R : Replies) (c : Context) (e : Expr) : Except EvalError Bool :=
  (e.outcome R c).bind Value.truth

section
variable {R : Replies} {c : Context}

theorem connectiveOutcome_eq (k : Connective) (es : List Expr) :
    connectiveOutcome R k es c = k.decide (es.map (·.verdict R c)) := by
  induction es with
  | nil => rfl
  | cons e es ih => rw [connectiveOutcome, ih]; rfl

theorem bind_truth_ofBool (x : Except EvalError Bool) :
    (x.map Value.ofBool).bind Value.truth = x := by
  cases x <;> rfl

namespace Expr

theorem verdict_connective (k : Connective) (es : List Expr) (s : Span) :
    (connective k es s).verdict R c = k.decide (es.map (·.verdict R c)) := by
  rw [verdict, outcome, bind_truth_ofBool, connectiveOutcome_eq]

theorem outcome_call (fn : Builtin) (e : Expr) (s : Span) :
    (call fn e s).outcome R c = (e.verdict R c).map fun b => .ofBool (fn.answer b) := by
  rw [outcome, verdict]
  cases e.outcome R c <;> rfl

theorem verdict_call (fn : Builtin) (e : Expr) (s : Span) :
    (call fn e s).verdict R c = (e.verdict R c).map fn.answer := by
  rw [verdict, outcome_call]
  cases e.verdict R c <;> rfl

theorem verdict_boolean (e : Expr) (s : Span) :
    (call .boolean e s).verdict R c = e.verdict R c := by
  rw [verdict_call]
  cases e.verdict R c <;> rfl

theorem verdict_not (e : Expr) (s : Span) :
    (call .not e s).verdict R c = (e.verdict R c).map (!·) := verdict_call .not e s

theorem verdict_literal (v : Value) : (literal v).verdict R c = v.truth := rfl

end Expr

end

/-! ## Logical expressions -/

/-- Connectives and calls over plain literals, variables, external functions that answer with plain
values, and parked errors. -/
def Expr.IsLogical (R : Replies) : Expr → Prop
  | .connective _ _ _ => True
  | .call _ _ _ => True
  | .literal v => v.Plain
  | .var _ _ => True
  | .external fn _ _ _ => ∀ vs v, R fn.name vs = .ok v → v.Plain
  | .failing _ _ _ => True
  | _ => False

namespace Replies

/-- What logical expressions use. -/
def vocabulary (R : Replies) : Vocabulary where
  var _ := True
  fn f := ∀ vs v, R f.name vs = .ok v → v.Plain
  cases _ := True
  left _ _ := True
  target t := t.atom ≠ .float ∧ t.atom ≠ .double
  value v := v.Plain
  known _ _ := True
  parked _ := True

theorem vocabulary_yieldsPlain (R : Replies) : R.vocabulary.YieldsPlain R.library where
  value hv := hv
  fn hf hv := hf _ _ (toOption_eq_some_iff.mp hv)
  target ht := ht

theorem over_vocabulary {R : Replies} {e : Expr} (he : e.Every (Expr.IsLogical R)) :
    e.Over R.vocabulary := by
  refine he.imp fun n hn => ?_
  cases n with
  | literal v => exact hn
  | external fn es tail span => exact hn
  | cast e t span => exact hn.elim
  | _ => trivial

end Replies

section
variable {R : Replies} {c : Context}

theorem Expr.outcome_plain {e : Expr} (he : e.Every (IsLogical R)) (hc : c.Plain) {v : Value}
    (hv : e.outcome R c = .ok v) : v.Plain := by
  cases e with
  | connective k es span =>
    rw [outcome] at hv
    cases hx : connectiveOutcome R k es c with
    | error t => rw [hx] at hv; cases hv
    | ok b => rw [hx] at hv; cases hv; exact Value.plain_ofBool b
  | call fn e span =>
    rw [outcome_call] at hv
    cases hx : e.verdict R c with
    | error t => rw [hx] at hv; cases hv
    | ok b => rw [hx] at hv; cases hv; exact Value.plain_ofBool _
  | literal w => cases hv; exact Expr.every_literal.mp he
  | var x span =>
    rw [outcome] at hv
    split at hv
    · cases hv
    · rename_i w hw
      cases hv
      exact hc _ _ hw
  | external fn es tail span =>
    have hfn := (Expr.every_external.mp he).1
    rw [outcome] at hv
    cases hx : argOutcomes R es c with
    | error t => rw [hx] at hv; cases hv
    | ok vs =>
      simp only [hx, Except.bind] at hv
      cases hr : R fn.name vs with
      | error t => simp [hr] at hv
      | ok w =>
        simp only [hr, placeless_ok, Except.ok.injEq] at hv
        exact hv ▸ hfn vs w hr
  | failing t type span => cases hv
  | _ => exact he.node.elim

/-! ## Evaluation -/

theorem placeless_ebv (v : Value) (span : Span) : placeless (v.ebv span) = v.ebv .unknown := by
  match v with
  | [] => rfl
  | [i] => cases i <;> rfl
  | _ :: _ :: _ => rfl

theorem Value.truth_eq (v : Value) (span : Span) :
    v.truth = (placeless (v.ebv span)).map (·.value) := by
  rw [placeless_ebv]
  rfl

/-- The truth of an unscored value is all there is to say. -/
theorem Value.Unscored.truth_cases {v : Value} (hv : v.Unscored) (span : Span) :
    (∃ t, v.ebv span = .error t ∧ v.truth = .error t.unplaced) ∨
      ∃ b, v.ebv span = .ok (.plain b) ∧ v.truth = .ok b := by
  rw [v.truth_eq span]
  cases hb : v.ebv span with
  | error t => exact .inl ⟨t, rfl, rfl⟩
  | ok b => exact .inr ⟨b.value, by rw [← hv.ebv hb], rfl⟩

variable {σ : Type} {h : Host σ}

/-- What a row of steps yields, without the states between them. -/
theorem placeless_onward {α β : Type} {x : Except EvalError α × σ} {o : Except EvalError α}
    (hx : placeless x.1 = o) {f : α → σ → Except EvalError β × σ} {g : α → Except EvalError β}
    (hf : ∀ a s, placeless (f a s).1 = g a) : placeless (onward x f).1 = o.bind g := by
  rcases placeless_cases hx with ⟨t, s, rfl, rfl⟩ | ⟨a, s, rfl, rfl⟩
  · rfl
  · exact hf a s

/-- The two outcomes of a step that asks for a truth. -/
theorem Expr.verdict_cases {e : Expr} (he : ∀ s, placeless (e.eval h c s).1 = e.outcome R c)
    (hp : ∀ v, e.outcome R c = .ok v → v.Unscored) (s : σ) :
    (∃ t s', e.ebv h c s = (.error t, s') ∧ e.verdict R c = .error t.unplaced) ∨
      ∃ b s', e.ebv h c s = (.ok (.plain b), s') ∧ e.verdict R c = .ok b := by
  rw [ebv_steps, verdict]
  rcases placeless_cases (he s) with ⟨t, s', hx, ho⟩ | ⟨v, s', hx, ho⟩
  · rw [hx, ho]
    exact .inl ⟨t, s', rfl, rfl⟩
  · rw [hx, ho, onward_ok]
    rcases (hp v ho).truth_cases e.span with ⟨t, hb, ht⟩ | ⟨b, hb, ht⟩
    · exact .inl ⟨t, s', by rw [hb], ht⟩
    · exact .inr ⟨b, s', by rw [hb], ht⟩

theorem evalAll_outcome (hh : h.Answers R) {es : List Expr}
    (hes : ∀ e ∈ es, ∀ s, placeless (e.eval h c s).1 = e.outcome R c)
    (hp : ∀ e ∈ es, ∀ v, e.outcome R c = .ok v → v.Unscored) (s : σ) :
    placeless (evalAll h es c .zero s).1 = (connectiveOutcome R .conjunction es c).map .ofBool := by
  induction es generalizing s with
  | nil => rfl
  | cons e es ih =>
    obtain ⟨he, hes⟩ := List.forall_mem_cons.mp hes
    obtain ⟨hpe, hp⟩ := List.forall_mem_cons.mp hp
    obtain ⟨s', hs⟩ := hh.steady.check s
    rw [evalAll_steps, hs, onward_ok, connectiveOutcome, ← Expr.verdict]
    rcases Expr.verdict_cases he hpe s' with ⟨t, s₁, hx, ho⟩ | ⟨b, s₁, hx, ho⟩
    · rw [hx, ho]; rfl
    · rw [hx, ho, onward_ok]
      cases b with
      | false => rfl
      | true =>
        have hz : (if c.scoring then Score.zero.both (Truth.plain true).score else .zero) =
            Score.zero := by
          split <;> rfl
        simp only [hz]
        exact ih hes hp s₁

theorem evalAny_outcome (hh : h.Answers R) {es : List Expr}
    (hes : ∀ e ∈ es, ∀ s, placeless (e.eval h c s).1 = e.outcome R c)
    (hp : ∀ e ∈ es, ∀ v, e.outcome R c = .ok v → v.Unscored) (s : σ) :
    placeless (evalAny h es c none s).1 = (connectiveOutcome R .disjunction es c).map .ofBool := by
  induction es generalizing s with
  | nil => rfl
  | cons e es ih =>
    obtain ⟨he, hes⟩ := List.forall_mem_cons.mp hes
    obtain ⟨hpe, hp⟩ := List.forall_mem_cons.mp hp
    obtain ⟨s', hs⟩ := hh.steady.check s
    rw [evalAny_steps, hs, onward_ok, connectiveOutcome, ← Expr.verdict]
    rcases Expr.verdict_cases he hpe s' with ⟨t, s₁, hx, ho⟩ | ⟨b, s₁, hx, ho⟩
    · rw [hx, ho]; rfl
    · rw [hx, ho, onward_ok]
      cases b with
      | false => exact ih hes hp s₁
      | true => rfl

theorem evalArgs_outcome (hh : h.Answers R) {es : List Expr}
    (hes : ∀ e ∈ es, ∀ s, placeless (e.eval h c s).1 = e.outcome R c) (s : σ) :
    placeless (evalArgs h es c s).1 = argOutcomes R es c := by
  induction es generalizing s with
  | nil => rfl
  | cons e es ih =>
    obtain ⟨he, hes⟩ := List.forall_mem_cons.mp hes
    obtain ⟨s', hs⟩ := hh.steady.check s
    rw [evalArgs_steps, hs, onward_ok, argOutcomes]
    refine placeless_onward (he s') fun v s => ?_
    exact placeless_onward (ih hes s) fun vs s => rfl

/-- Evaluation of a logical expression yields its outcome, but for the place of an error. -/
theorem Expr.eval_outcome (hh : h.Answers R) (hc : c.Plain) {e : Expr}
    (he : e.Every (IsLogical R)) (s : σ) : placeless (e.eval h c s).1 = e.outcome R c := by
  induction e generalizing s with
  | connective k es span ih =>
    obtain ⟨-, hes⟩ := Expr.every_connective.mp he
    have hes' : ∀ e ∈ es, ∀ s, placeless (e.eval h c s).1 = e.outcome R c :=
      fun e hm s => ih e hm (hes e hm) s
    have hp : ∀ e ∈ es, ∀ v, e.outcome R c = .ok v → v.Unscored :=
      fun e hm v hv => (outcome_plain (hes e hm) hc hv).unscored
    cases k with
    | conjunction => exact evalAll_outcome hh hes' hp s
    | disjunction => exact evalAny_outcome hh hes' hp s
  | call fn e span ih =>
    obtain ⟨-, he⟩ := Expr.every_call.mp he
    have hp (v : Value) (hv : e.outcome R c = .ok v) : v.Unscored :=
      (outcome_plain he hc hv).unscored
    rw [eval_call_steps, outcome_call]
    rcases verdict_cases (ih he) hp s with ⟨t, s', hx, ho⟩ | ⟨b, s', hx, ho⟩
    · rw [hx, ho]; rfl
    · rw [hx, ho]
      cases fn <;> rfl
  | literal w => rfl
  | var x span =>
    rw [Expr.eval, Expr.outcome]
    cases c.lookup x.id <;> rfl
  | external fn es tail span ih =>
    obtain ⟨-, hes⟩ := Expr.every_external.mp he
    rw [eval_external_steps, Expr.outcome]
    refine placeless_onward ?_ fun vs s => sameResult_iff.mp (hh.invoke fn vs _ s)
    exact evalArgs_outcome hh (fun e hm s => ih e hm (hes e hm) s) s
  | failing t type span => rfl
  | _ => exact he.node.elim

/-- The effective boolean value of a logical expression is its verdict, without a score. -/
theorem Expr.ebv_verdict (hh : h.Answers R) (hc : c.Plain) {e : Expr}
    (he : e.Every (IsLogical R)) (s : σ) :
    placeless (e.ebv h c s).1 = (e.verdict R c).map Truth.plain := by
  have hp (v : Value) (hv : e.outcome R c = .ok v) : v.Unscored := (outcome_plain he hc hv).unscored
  rcases verdict_cases (eval_outcome hh hc he) hp s with ⟨t, s', hx, ho⟩ | ⟨b, s', hx, ho⟩
  · rw [hx, ho]; rfl
  · rw [hx, ho]; rfl

/-- The outcome of a logical expression is its value, if it has one. -/
theorem Expr.outcome_toOption (hc : c.Plain) {e : Expr} (he : e.Every (IsLogical R)) :
    (e.outcome R c).toOption = e.value? R.library c := by
  rw [← eval_outcome R.still_answers hc he (), toOption_placeless]
  exact eval_eq R.still_answers.steady R.vocabulary_yieldsPlain (Replies.over_vocabulary he) hc ()

end

end QueryExpr
