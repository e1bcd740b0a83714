import QueryExpr.Proofs.Landing
import QueryExpr.Proofs.NormalForm
import QueryExpr.Proofs.Verdict

/-!
# QueryExpr.Proofs.Draws

Calls that are a matter of chance, under the optimiser of connectives.

* `drawing`  — a host whose functions of chance read the outcomes of a stream, one after the other,
  and log that they do.
* `optimizeConnective_unscored` — over unscored operands, optimisation keeps value and state,
  whatever the state is.
* `optimize_keeps_draws` — so no call of chance is dropped, made twice or moved before another one.
-/

namespace QueryExpr

/-- A call of a function of chance. -/
structure Draw where
  function : ExternalFn
  arguments : List Value
  info : CallInfo
deriving DecidableEq

/-- The outcomes of calls of chance, by how many were made before. An outcome may depend on the call
that reads it, so that it can be of the type of the function. -/
abbrev Outcomes := Nat → Draw → Except EvalError Value

/-- A host that is not cancelled. A function of chance, known by its name, reads the next outcome;
the call is logged. Any other function answers by its name and its arguments. -/
def drawing (chance : String → Bool) (R : Replies) (O : Outcomes) : Host (List Draw) where
  poll log := (false, log)
  invoke fn vs info log :=
    if chance fn.name then (O log.length ⟨fn, vs, info⟩, log ++ [⟨fn, vs, info⟩])
    else (R fn.name vs, log)

section
variable {chance : String → Bool} {R : Replies} {O : Outcomes} {c : Context} {k : Connective}
  {span : Span}

theorem drawing_draws : (drawing chance R O).Draws chance R.library where
  poll _ := rfl
  steady := by
    intro fn vs info log hc
    simp [drawing, hc, Replies.library]

/-- Over compiled operands that are unscored and treated as their types and marks say, optimisation
keeps the value of a connective and the state after it. -/
theorem optimizeConnective_unscored {σ : Type} {h : Host σ} {L : Library}
    (hh : h.Draws chance L) {es : List Expr} (hes : ∀ e ∈ es, e.Settled)
    (hf : ∀ e ∈ es, e.Fair h chance (· = .zero) c) {s s' : σ} {v : Value}
    (hv : (Expr.connective k es span).eval h c s = (.ok v, s')) :
    ∃ d, (optimizeConnective k es span).value = .ok d ∧ d.eval h c s = (.ok v, s') := by
  have hS := Score.closed_zero
  have hyields : ∀ e ∈ es, e.YieldsScored h (· = .zero) c := fun e he => (hf e he).yields hS
  obtain ⟨b, rfl, hr⟩ := Connective.run_of_eval hS hh hyields hv
  obtain ⟨d, hd, b', hland, hst⟩ := rounds_run hS hh (Nat.lt_succ_self _) hes hf
    (.inl fun r hr => hr) hr span
  refine ⟨d, hd, ?_⟩
  have hb : b.score = .zero := Value.scoredIn_ofTruth.mp
    (Connective.yieldsScored hS hyields span s _ s' hv)
  have hb' : b'.score = .zero :=
    Value.scoredIn_ofTruth.mp (hland.fair.yields hS s _ s' hland.eval)
  rw [← Connective.eq_of_stage hst hb' hb]
  exact hland.eval

/-- If a connective over compiled operands has a value, optimisation succeeds, and its result has
the same value and makes the same calls of chance, in the same order and with the same arguments, as
long as scores are zero and values are of their types. -/
theorem optimize_keeps_draws {checks : Checks} {es : List Expr} {log log' : List Draw} {v : Value}
    (hcompiled : ∀ e ∈ es, ∃ d : Expr, (d.compile checks).value = .ok e)
    (hcandid : ∀ e ∈ es, e.Every (Expr.Candid chance))
    (hconform : ∀ e ∈ es,
      e.Throughout (drawing chance R O) (Expr.Conforming (drawing chance R O)) c)
    (hscored : ∀ e ∈ es,
      e.Throughout (drawing chance R O) (Expr.Scored (drawing chance R O) (· = .zero)) c)
    (hv : (Expr.connective k es span).eval (drawing chance R O) c log = (.ok v, log')) :
    ∃ e, (Expr.connective k es span).optimize.value = .ok e ∧
      e.eval (drawing chance R O) c log = (.ok v, log') := by
  have hsettled : ∀ e ∈ es, e.Settled := by
    intro e he
    obtain ⟨d, hd⟩ := hcompiled e he
    exact Expr.compile_settled hd
  exact optimizeConnective_unscored drawing_draws hsettled
    (fun e he => ⟨hconform e he, hscored e he, hcandid e he⟩) hv

/-- One of two calls of `open` is dropped, and none of two tosses of a coin, of which the second
decides. -/
theorem optimize_keeps_draws_coins :
    let toss : Expr := .external ⟨0, "coin", .booleanOne, false⟩ [] false .unknown
    let ready : Expr := .external ⟨1, "open", .booleanOne, true⟩ [] false .unknown
    let e : Expr := .connective .conjunction
      [toss, .connective .conjunction [ready, toss] .unknown, ready] .unknown
    let h := drawing (· == "coin") (fun _ _ => .ok (.ofBool true)) fun n _ => .ok (.ofBool (n == 0))
    let drawn : Draw := ⟨⟨0, "coin", .booleanOne, false⟩, [], ⟨false, .unknown⟩⟩
    (∃ d, e.optimize.value = .ok d ∧
      d.eval h (.empty true) [] = (.ok (.ofBool false), [drawn, drawn])) ∧
    e.optimize.value = .ok (.connective .conjunction [toss, ready, toss] .unknown) := by
  intro toss ready e h drawn
  have hinvoke : ∀ {fn vs info s v s'}, h.invoke fn vs info s = (.ok v, s') →
      v = .ofBool true ∨ v = .ofBool false := by
    intro fn vs info s v s' hv
    simp only [h, drawing] at hv
    split at hv
    · cases hv
      cases s.length == 0 <;> simp
    · cases hv
      exact .inl rfl
  have hcall (key : Nat) (n : String) (det : Bool) (hdet : det = true → (n == "coin") = false) :
      (Expr.external ⟨key, n, .booleanOne, det⟩ [] false .unknown).Fair h (· == "coin") (· = .zero)
        (.empty true) := by
    refine ⟨.external ?_ (by simp), .external ?_ (by simp), Expr.every_external.mpr ⟨hdet, by simp⟩⟩
    · intro vs info s v s' hv
      rcases hinvoke hv with rfl | rfl <;> rfl
    · intro vs info s v s' hv
      rcases hinvoke hv with rfl | rfl <;> exact Score.closed_zero.ofBool _
  have htoss := hcall 0 "coin" false (by simp)
  have hready := hcall 1 "open" true (by decide)
  have hfair : ∀ d ∈ [toss, .connective .conjunction [ready, toss] .unknown, ready],
      d.Fair h (· == "coin") (· = .zero) (.empty true) := by
    have hinner : ∀ d ∈ [ready, toss], d.Fair h (· == "coin") (· = .zero) (.empty true) :=
      List.forall_mem_cons.mpr ⟨hready, List.forall_mem_singleton.mpr htoss⟩
    exact List.forall_mem_cons.mpr
      ⟨htoss, List.forall_mem_cons.mpr ⟨.connective hinner, List.forall_mem_singleton.mpr hready⟩⟩
  have hcompiled : ∀ d ∈ [toss, .connective .conjunction [ready, toss] .unknown, ready],
      ∃ d' : Expr, (d'.compile fun _ _ _ => .ok ()).value = .ok d := by
    have hinner : ∃ d' : Expr, (d'.compile fun _ _ _ => .ok ()).value =
        .ok (.connective .conjunction [ready, toss] .unknown) :=
      ⟨.connective .conjunction [ready, toss] .unknown, rfl⟩
    exact List.forall_mem_cons.mpr ⟨⟨toss, rfl⟩,
      List.forall_mem_cons.mpr ⟨hinner, List.forall_mem_singleton.mpr ⟨ready, rfl⟩⟩⟩
  exact ⟨optimize_keeps_draws hcompiled (fun d hd => (hfair d hd).candid)
    (fun d hd => (hfair d hd).conforming) (fun d hd => (hfair d hd).scored) rfl, rfl⟩

end
end QueryExpr
