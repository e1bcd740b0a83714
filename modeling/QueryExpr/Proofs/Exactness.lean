import QueryExpr.Proofs.Fixed
import QueryExpr.Proofs.Verdict

/-!
# QueryExpr.Proofs.Exactness

The optimiser of connectives keeps the error that surfaces.

* `EndsIn`              — an attempt fails with the expected error only, and else has a property.
* `Expr.Gives`          — a logical expression with a given verdict.
* `Connective.Gives`     — logical operands over which a connective has a verdict; each step of the
  optimiser keeps it (`selectOperands`, `dropDuplicates`, `combineOperands`, `connectiveStep`).
* `rounds_endsIn`       — and so do all rounds.
* `optimize_exact`      — so the result is evaluated to what the connective is, or to its error, and
  an error of the optimiser is the one that evaluation would raise.

No operand needs to be compiled here: what the steps ask of the operands is that they are logical
expressions, among which there is nothing to merge.
-/

namespace QueryExpr

/-! ## Attempts -/

section
variable {α β : Type}

/-- What an attempt ends in has a property, or it fails with the error that was expected. -/
def EndsIn (y : Except EvalError Bool) (P : α → Prop) : Except CompileError α → Prop
  | .ok a => P a
  | .error t => ∃ u, t = .eval u ∧ y = .error u.unplaced

namespace EndsIn

variable {y : Except EvalError Bool} {P : α → Prop} {Q : β → Prop}

theorem andThen {x : Attempt α} {f : α → Attempt β} (hx : EndsIn y P x.value)
    (hf : ∀ a, P a → EndsIn y Q (f a).value) : EndsIn y Q (x.andThen f).value := by
  cases h : x.value with
  | error t => rw [Attempt.andThen_of_error h]; rw [h] at hx; exact hx
  | ok a => rw [Attempt.andThen_of_ok h]; rw [h] at hx; exact hf a hx

theorem map {x : Except CompileError α} {f : α → β} (hx : EndsIn y P x)
    (hf : ∀ a, P a → Q (f a)) : EndsIn y Q (x.map f) := by
  cases x with
  | error t => exact hx
  | ok a => exact hf a hx

/-- An error is expected of a negation if it is expected of what is negated. -/
theorem negated {x : Except CompileError α} (hx : EndsIn y P x) :
    EndsIn (y.map (!·)) P x := by
  cases x with
  | error t =>
    obtain ⟨u, ht, hy⟩ := hx
    exact ⟨u, ht, by rw [hy]; rfl⟩
  | ok a => exact hx

end EndsIn

end

section
variable {R : Replies} {c : Context} {k : Connective} {span : Span} {y : Except EvalError Bool}

/-- A logical expression with a verdict. -/
structure Expr.Gives (R : Replies) (c : Context) (y : Except EvalError Bool) (e : Expr) : Prop where
  logical : e.Every (IsLogical R)
  verdict : e.verdict R c = y

/-! ## Boolean functions -/

theorem truth_of_ebv_ok {v : Value} {b : Truth} (h : v.ebv span = .ok b) :
    v.truth = .ok b.value := by
  rw [v.truth_eq span, h]
  rfl

theorem truth_of_ebv_error {v : Value} {t : EvalError} (h : v.ebv span = .error t) :
    v.truth = .error t.unplaced := by
  rw [v.truth_eq span, h]
  rfl

namespace Expr.Gives

variable {e : Expr}

theorem ofBool (b : Bool) : (Expr.ofBool b).Gives R c (.ok b) :=
  ⟨Expr.every_literal.mpr (Value.plain_ofBool b), rfl⟩

theorem boolean (he : e.Gives R c y) : (Expr.call .boolean e span).Gives R c y :=
  ⟨Expr.every_call.mpr ⟨trivial, he.logical⟩, by rw [verdict_boolean, he.verdict]⟩

theorem not (he : e.Gives R c y) : (Expr.call .not e span).Gives R c (y.map (!·)) :=
  ⟨Expr.every_call.mpr ⟨trivial, he.logical⟩, by rw [verdict_not, he.verdict]⟩

theorem asCondition (he : e.Gives R c y) : e.asCondition.value.Gives R c y := by
  induction e with
  | call fn arg s ih =>
    cases fn with
    | boolean =>
      refine ih ⟨(Expr.every_call.mp he.logical).2, ?_⟩
      rw [← he.verdict, verdict_boolean]
    | not => exact he
  | _ => exact he

theorem optimizeBoolean (he : e.Gives R c y) (span : Span) :
    EndsIn y (Expr.Gives R c y) (optimizeBoolean e span).value := by
  have hcore := he.asCondition
  simp only [QueryExpr.optimizeBoolean, Attempt.value_after]
  split
  · rename_i v hv
    rw [hv] at hcore
    have hplain : v.Plain := Expr.every_literal.mp hcore.logical
    have hy : v.truth = y := hcore.verdict
    split
    · rename_i t ht
      exact ⟨t, rfl, by rw [← hy, truth_of_ebv_error ht]⟩
    · rename_i b hb
      have hb' := truth_of_ebv_ok hb
      rw [← hy, hb', hplain.ebv hb]
      exact ofBool b.value
  · split
    · exact hcore
    · exact hcore.boolean

theorem optimizeNot (he : e.Gives R c y) (span : Span) :
    EndsIn (y.map (!·)) (Expr.Gives R c (y.map (!·))) (optimizeNot e span).value := by
  have hcore := he.asCondition
  simp only [QueryExpr.optimizeNot, Attempt.value_after]
  split
  · rename_i v hv
    rw [hv] at hcore
    have hy : v.truth = y := hcore.verdict
    split
    · rename_i t ht
      exact ⟨t, rfl, by rw [← hy, truth_of_ebv_error ht]; rfl⟩
    · rename_i b hb
      rw [← hy, truth_of_ebv_ok hb]
      exact ofBool !b.value
  · rename_i inner s hv
    rw [hv] at hcore
    have hinner : inner.Gives R c (y.map (!·)) := by
      refine ⟨(Expr.every_call.mp hcore.logical).2, ?_⟩
      rw [← hcore.verdict, verdict_not]
      cases inner.verdict R c <;> simp [Except.map]
    exact (hinner.optimizeBoolean span).andThen fun e he => he
  · exact hcore.not

end Expr.Gives

/-! ## Operands -/

/-- Logical operands over which a connective has a verdict. -/
structure Connective.Gives (k : Connective) (R : Replies) (c : Context) (y : Except EvalError Bool)
    (es : List Expr) : Prop where
  logical : ∀ e ∈ es, e.Every (Expr.IsLogical R)
  verdict : k.decide (es.map (·.verdict R c)) = y

theorem Expr.gives_connective {es : List Expr} :
    (connective k es span).Gives R c y ↔ k.Gives R c y es := by
  constructor
  · intro h
    exact ⟨(Expr.every_connective.mp h.logical).2, by rw [← h.verdict, verdict_connective]⟩
  · intro h
    exact ⟨Expr.every_connective.mpr ⟨trivial, h.logical⟩, by rw [verdict_connective, h.verdict]⟩

/-- Flattening leaves the verdict of an operand to what it is flattened to. -/
theorem flattened_verdict (e : Expr) :
    k.decide ((e.flattened k).map (·.verdict R c)) = e.verdict R c := by
  refine flattened_induction
    (motive := fun e es => k.decide (es.map (·.verdict R c)) = e.verdict R c) ?_ ?_ ?_ e
  · intro arg s ih
    rw [ih, Expr.verdict_boolean]
  · intro es s ih
    rw [Expr.verdict_connective, List.map_flatMap, Connective.decide_flatMap,
      List.map_congr_left ih]
  · intro e _ _
    exact Connective.decide_singleton _

namespace Connective.Gives

variable {es : List Expr}

theorem pieces (h : k.Gives R c y es) : k.Gives R c y (operandsOf (pieces k es)) := by
  rw [operandsOf_piecesList]
  refine ⟨fun d hd => ?_, ?_⟩
  · obtain ⟨e, he, hde⟩ := List.mem_flatMap.mp hd
    exact flattened_every (h.logical e he) d hde
  · rw [List.map_flatMap, decide_flatMap, List.map_congr_left fun e _ => flattened_verdict e]
    exact h.verdict

/-- What is kept of the operands decides as they do. An error at once is that of the first operand,
and behind a parked one nothing can be seen. -/
theorem selectOperands {ps : List Piece} (h : k.Gives R c y (operandsOf ps)) (leading : Bool) :
    EndsIn y (k.Gives R c y) (selectOperands k span ps leading).value := by
  have hs := selectOperands_selects k span ps leading
  generalize operandsOf ps = es, (QueryExpr.selectOperands k span ps leading).value = x at hs h ⊢
  induction hs generalizing y with
  | nil => exact h
  | kept _ _ _ ih =>
    obtain ⟨hlogical, hy⟩ := h
    obtain ⟨he, hes⟩ := List.forall_mem_cons.mp hlogical
    obtain ⟨hkept, hdecide⟩ : k.Gives R c _ _ := ih ⟨hes, rfl⟩
    refine ⟨List.forall_mem_cons.mpr ⟨he, hkept⟩, ?_⟩
    rw [List.map_cons, decide, hdecide, ← hy]
    rfl
  | failed _ ht =>
    obtain ⟨-, hy⟩ := h
    rw [List.map_cons, decide, Expr.verdict_literal, truth_of_ebv_error ht] at hy
    exact ⟨_, rfl, hy.symm⟩
  | parked _ ht =>
    obtain ⟨-, hy⟩ := h
    rw [List.map_cons, decide, Expr.verdict_literal, truth_of_ebv_error ht] at hy
    refine ⟨List.forall_mem_singleton.mpr (Expr.every_failing.mpr trivial), ?_⟩
    rw [← hy]
    rfl
  | decided _ _ hb hd =>
    obtain ⟨-, hy⟩ := h
    rw [List.map_cons, decide, Expr.verdict_literal, truth_of_ebv_ok hb] at hy
    have hone := Expr.Gives.ofBool (R := R) (c := c) k.absorbing
    refine ⟨List.forall_mem_singleton.mpr hone.logical, ?_⟩
    rw [List.map_singleton, decide_singleton, hone.verdict, ← hy, hd]
    simp [Except.bind]
  | dropped _ hb hd _ ih =>
    obtain ⟨hlogical, hy⟩ := h
    rw [List.map_cons, decide, Expr.verdict_literal, truth_of_ebv_ok hb] at hy
    simp only [Except.bind, hd, if_false] at hy
    exact ih ⟨(List.forall_mem_cons.mp hlogical).2, hy⟩

/-- Equal operands have equal verdicts, or both fail. -/
theorem verdict_same (hc : c.Plain) {d e : Expr} (hd : d.Every (Expr.IsLogical R))
    (he : e.Every (Expr.IsLogical R)) (h : e.same d = true) :
    (d.verdict R c).toOption = (e.verdict R c).toOption := by
  have hvalue : e.value? R.library c = d.value? R.library c :=
    Expr.value?_same R.vocabulary_yieldsPlain (Replies.over_vocabulary he)
      (Replies.over_vocabulary hd) h c
  refine Except.toOption_congr ?_ fun _ => rfl
  rw [Expr.outcome_toOption hc hd, Expr.outcome_toOption hc he, hvalue]

theorem dropDuplicates (hc : c.Plain) {seen : List Expr} (h : k.Gives R c y (seen ++ es)) :
    k.Gives R c y (seen ++ (dropDuplicates k seen es).value) := by
  induction es generalizing seen with
  | nil => exact h
  | cons e es ih =>
    simp only [QueryExpr.dropDuplicates]
    split
    · rename_i hdup
      simp only [Bool.and_eq_true, Bool.not_eq_true', List.any_eq_true] at hdup
      obtain ⟨-, d, hd, hs⟩ := hdup
      obtain ⟨hlogical, hy⟩ := h
      have hsame := verdict_same hc (hlogical d (by simp [hd])) (hlogical e (by simp)) hs
      refine ih ⟨fun f hf => hlogical f ?_, ?_⟩
      · rcases List.mem_append.mp hf with hf | hf <;> simp [hf]
      · rw [← hy, List.map_append, List.map_append, List.map_cons,
          decide_repeated (List.mem_map_of_mem hd) hsame]
    · have hadded : k.Gives R c y (seen ++ [e] ++ es) := by simpa using h
      simpa using ih hadded

/-- Among logical operands there is nothing to merge. -/
theorem mergeAdjacent (h : k.Gives R c y es) : (mergeAdjacent k es).value = es := by
  have hmerge (a b : Expr) (ha : a.Every (Expr.IsLogical R)) : a.merge? k b = none := by
    cases a with
    | position => exact ha.node.elim
    | range => exact ha.node.elim
    | compare => exact ha.node.elim
    | _ => cases k <;> rfl
  cases es with
  | nil => rfl
  | cons e es =>
    refine mergeOnto_fixed fun ds a b fs hes => hmerge a b (h.logical a ?_)
    rw [hes]
    simp

theorem negated (h : k.Gives R c y es) {args : List Expr} (hn : negated? es = some args) :
    (Expr.call .not (.connective k.opposite args span) span).Gives R c y := by
  have hverdicts : es.map (·.verdict R c) = (args.map (·.verdict R c)).map (·.map (!·)) := by
    clear h
    induction es generalizing args with
    | nil => cases hn; rfl
    | cons e es ih =>
      obtain ⟨arg, s, args, rfl, hargs, rfl⟩ := negated?_cons hn
      rw [List.map_cons, List.map_cons, List.map_cons, ih hargs, Expr.verdict_not]
  have hy : (k.opposite.decide (args.map (·.verdict R c))).map (!·) = y := by
    rw [← decide_negated, ← hverdicts, h.verdict]
  rw [← hy]
  exact (Expr.gives_connective.mpr ⟨negated?_every hn h.logical, rfl⟩).not

/-! ## Rounds -/

theorem combineOperands (hc : c.Plain) (h : k.Gives R c y es) (span : Span) :
    EndsIn y (fun r => (Round.expr k span r).Gives R c y) (combineOperands k es span).value := by
  have hu : k.Gives R c y ([] ++ (QueryExpr.dropDuplicates k [] es).value) := h.dropDuplicates hc
  rcases combineOperands_cases k es span rfl hu.mergeAdjacent with
    ⟨hl, -⟩ | ⟨e, he, hv⟩ | ⟨args, hargs, hv⟩ | ⟨-, -, -, hv⟩
  · exact absurd rfl hl
  · rw [hv]
    rw [he] at hu
    have hge : e.Gives R c y := by
      refine ⟨hu.logical e (List.mem_singleton_self e), ?_⟩
      rw [← hu.verdict, List.map_singleton, decide_singleton]
    exact (hge.optimizeBoolean span).map fun _ hd => hd
  · rw [hv]
    exact hu.negated hargs
  · rw [hv]
    exact Expr.gives_connective.mpr hu

theorem connectiveStep (hc : c.Plain) (h : k.Gives R c y es) (span : Span) :
    EndsIn y (fun r => (Round.expr k span r).Gives R c y) (connectiveStep k es span).value := by
  refine (h.pieces.selectOperands true).andThen fun kept hk => ?_
  split
  · obtain ⟨-, hy⟩ := hk
    exact hy ▸ Expr.Gives.ofBool _
  · rename_i v
    obtain ⟨hlogical, hy⟩ := hk
    rw [List.map_singleton, decide_singleton] at hy
    exact ⟨hlogical _ (List.mem_singleton_self _), hy⟩
  · exact hk.combineOperands hc span

end Connective.Gives

/-- All rounds keep the verdict; so does running out of them. -/
theorem rounds_endsIn (hc : c.Plain) {fuel : Nat} {es : List Expr} (h : k.Gives R c y es)
    (span : Span) : EndsIn y (Expr.Gives R c y) (rounds fuel k es span).value := by
  induction fuel generalizing k y es with
  | zero => exact Expr.gives_connective.mpr h
  | succ fuel ih =>
    refine (h.connectiveStep hc span).andThen fun r hr => ?_
    cases r with
    | done e => exact hr
    | again es => exact ih (Expr.gives_connective.mp hr)
    | negation es =>
      obtain ⟨hlogical, hy⟩ :
          (Expr.call .not (.connective k.opposite es span) span).Gives R c y := hr
      have hes := (Expr.every_connective.mp (Expr.every_call.mp hlogical).2).2
      have hinner : k.opposite.Gives R c _ es := ⟨hes, rfl⟩
      rw [Expr.verdict_not, Expr.verdict_connective] at hy
      rw [← hy]
      refine (ih hinner).negated.andThen fun e he => ?_
      exact (he.optimizeNot span).andThen fun e he => he

/-! ## Evaluation -/

/-- Optimising a connective over logical operands keeps what it is evaluated to: a truth value or an
error, but for the place of the error. An error of the optimiser is the one that evaluation
raises. -/
theorem optimize_exact {σ : Type} {h : Host σ} (hh : h.Answers R) {es : List Expr}
    (hes : ∀ e ∈ es, e.Every (Expr.IsLogical R)) (hc : c.Plain) :
    match (Expr.connective k es span).optimize.value with
    | .ok e => ∀ s s', SameResult (e.ebv h c s).1 ((Expr.connective k es span).ebv h c s').1
    | .error t => ∃ u, t = .eval u ∧
        ∀ s, SameResult ((Expr.connective k es span).eval h c s).1 (.error u) := by
  have hlogical : (Expr.connective k es span).Every (Expr.IsLogical R) :=
    Expr.every_connective.mpr ⟨trivial, hes⟩
  have hends : EndsIn ((Expr.connective k es span).verdict R c)
      (Expr.Gives R c ((Expr.connective k es span).verdict R c))
      (optimizeConnective k es span).value :=
    rounds_endsIn hc (Expr.gives_connective.mp ⟨hlogical, rfl⟩) span
  have hvalue : (Expr.connective k es span).optimize.value =
    (optimizeConnective k es span).value := rfl
  rw [hvalue]
  cases hv : (optimizeConnective k es span).value with
  | ok e =>
    rw [hv] at hends
    intro s s'
    rw [sameResult_iff, Expr.ebv_verdict hh hc hends.logical, Expr.ebv_verdict hh hc hlogical,
      hends.verdict]
  | error t =>
    rw [hv] at hends
    obtain ⟨u, ht, hu⟩ := hends
    refine ⟨u, ht, fun s => ?_⟩
    rw [Expr.verdict_connective] at hu
    rw [sameResult_iff, Expr.eval_outcome hh hc hlogical, Expr.outcome, connectiveOutcome_eq, hu]
    rfl

/-- A host that counts its questions: `ready` is false, and any other function fails where it is
called. -/
def countingHost : Host Nat where
  poll n := (false, n + 1)
  invoke fn _ info n :=
    (if fn.name = "ready" then .ok (.ofBool false) else .error (.ebv "a name" info.span), n)

def countingReplies : Replies := fun name _ =>
  if name = "ready" then .ok (.ofBool false) else .error (.ebv "a name" .unknown)

/-- Two negations are factored out, and a literal without a truth is parked behind a call that
fails. -/
theorem optimize_exact_negations :
    let call (name : String) (s : Span) : Expr := .external ⟨0, name, .booleanOne, true⟩ [] false s
    let name : Expr := .literal [.qname ⟨none, "a"⟩]
    let e : Expr := .connective .conjunction
      [.call .not (call "ready" ⟨1, 5⟩) .unknown,
        .call .not (.connective .disjunction [call "open" ⟨1, 19⟩, name] .unknown) .unknown] .unknown
    ∃ d, e.optimize.value = .ok d ∧ d.kind = .negation ∧
      ∀ s s', SameResult (d.ebv countingHost (.empty true) s).1
        (e.ebv countingHost (.empty true) s').1 := by
  intro call name e
  have hh : countingHost.Answers countingReplies := by
    refine ⟨fun _ => rfl, fun fn vs info s => ?_⟩
    by_cases hfn : fn.name = "ready" <;>
      simp [countingHost, countingReplies, hfn, SameResult, EvalError.same]
  have hcall (n : String) (s : Span) : (call n s).Every (Expr.IsLogical countingReplies) := by
    refine Expr.every_external.mpr ⟨fun vs v hv => ?_, by simp⟩
    simp only [countingReplies] at hv
    split at hv
    · cases hv; exact Value.plain_ofBool false
    · cases hv
  have hname : name.Every (Expr.IsLogical countingReplies) :=
    Expr.every_literal.mpr (Value.plain_singleton.mpr trivial)
  have hlogical : ∀ d ∈ [Expr.call .not (call "ready" ⟨1, 5⟩) .unknown,
      .call .not (.connective .disjunction [call "open" ⟨1, 19⟩, name] .unknown) .unknown],
      d.Every (Expr.IsLogical countingReplies) := by
    simp [Expr.IsLogical, hcall, hname]
  have hplain : (Context.empty true).Plain := by
    intro id v hv
    cases hv
  have hexact := @optimize_exact _ _ .conjunction .unknown _ _ hh _ hlogical hplain
  exact ⟨_, rfl, rfl, hexact⟩

end

end QueryExpr
