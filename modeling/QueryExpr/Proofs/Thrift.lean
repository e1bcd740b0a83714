import QueryExpr.Proofs.Calls
import QueryExpr.Proofs.Preservation

/-!
# QueryExpr.Proofs.Thrift

Compilation adds no call of an external function, and reorders none.

* `OperandRule.spares` — a rule inside the operands of a connective adds no call.
* `Rule.spares`        — nor does one at the root of an expression.
* `Rewrites.spares`    — nor do rules applied anywhere, in any order.
* `compile_spares`     — the calls of a compiled expression are some of those of the expression, in
  the same order.
-/

namespace QueryExpr

section
variable {checks : Checks} {L : Library} {D : Declarations} {k : Connective} {c : Context}

/-! ## Operands -/

theorem operandCalls_cons (e : Expr) (es : List Expr) :
    operandCalls L k (e :: es) c = e.calls L c ++ (e.test? L c).elim [] fun b =>
      if b = k.absorbing then [] else operandCalls L k es c := by
  rw [operandCalls]

/-- Operands are evaluated one after the other, as long as none decides. -/
theorem operandCalls_append (ds es : List Expr) :
    operandCalls L k (ds ++ es) c = operandCalls L k ds c ++ (truth? L k ds c).elim [] fun b =>
      if b = k.absorbing then [] else operandCalls L k es c := by
  induction ds with
  | nil =>
    have hk : ¬ (!k.absorbing) = k.absorbing := by cases k.absorbing <;> simp
    simp [operandCalls, truth?, hk]
  | cons d ds ih =>
    rw [List.cons_append, operandCalls_cons, operandCalls_cons, truth?_cons]
    cases d.test? L c with
    | none => simp
    | some b =>
      by_cases hb : b = k.absorbing
      · simp [hb]
      · simp [hb, ih]

/-- What stands in front does not matter. -/
theorem operandCalls_append_left {ds es fs : List Expr}
    (h : ∀ b, truth? L k es c = some b →
      (operandCalls L k fs c).Sublist (operandCalls L k es c)) {b : Bool}
    (hb : truth? L k (ds ++ es) c = some b) :
    (operandCalls L k (ds ++ fs) c).Sublist (operandCalls L k (ds ++ es) c) := by
  rw [truth?_append] at hb
  obtain ⟨a, ha, hb⟩ := Option.bind_eq_some_iff.mp hb
  rw [operandCalls_append, operandCalls_append, ha, Option.elim_some, Option.elim_some]
  refine List.Sublist.append (.refl _) ?_
  split at hb
  · rename_i hk; rw [if_pos hk, if_pos hk]
  · rename_i hk; rw [if_neg hk, if_neg hk]; exact h b hb

/-- A merged operand makes calls of the first of its two parts only. -/
theorem merge?_calls {d e : Expr} {m : Noted Expr} (hm : d.merge? k e = some m) :
    (m.value.calls L c).Sublist (d.calls L c) := by
  rcases merge?_cases hm with ⟨a, b, s, a', b', s', lo, hi, rfl, rfl, rfl, _, _, hm⟩ |
    ⟨b, d', s, b', e', s', rfl, rfl, rfl, _, _, _, hm⟩ |
    ⟨l, v, s, l', w, s', rfl, rfl, rfl, _, _, hm⟩
  · rw [hm]
    split <;> exact .refl _
  · rw [hm]
    split
    · exact List.nil_sublist _
    · exact .refl _
  · rw [hm, Expr.calls, Expr.calls]
    cases l.value? L c <;> exact .refl _

theorem merge?_spares {d e : Expr} {m : Noted Expr} {fs : List Expr} (hd : d.AtRest)
    (he : e.AtRest) (hdo : d.Over (.regular checks L D)) (heo : e.Over (.regular checks L D))
    (hc : c.Declared D) (hm : d.merge? k e = some m) {b : Bool}
    (hb : truth? L k (d :: e :: fs) c = some b) :
    (operandCalls L k (m.value :: fs) c).Sublist (operandCalls L k (d :: e :: fs) c) := by
  have hmerged (b : Bool) (h : truth? L k [d, e] c = some b) : m.value.test? L c = some b :=
    truth?_singleton m.value ▸ merge?_decides hd he hdo heo hc hm h
  rw [truth?_cons] at hb
  obtain ⟨x, hx, hb⟩ := Option.bind_eq_some_iff.mp hb
  rw [operandCalls_cons, operandCalls_cons, hx, Option.elim_some]
  refine (merge?_calls hm).append ?_
  by_cases hk : x = k.absorbing
  · have hmx : m.value.test? L c = some x :=
      hmerged x (by rw [truth?_cons, hx, Option.bind_some, if_pos hk])
    rw [hmx, Option.elim_some, if_pos hk]
    exact List.nil_sublist _
  · rw [if_neg hk] at hb ⊢
    rw [truth?_cons] at hb
    obtain ⟨y, hy, -⟩ := Option.bind_eq_some_iff.mp hb
    have hmy : m.value.test? L c = some y := by
      refine hmerged y ?_
      rw [truth?_cons, hx, Option.bind_some, if_neg hk, truth?_cons, hy, Option.bind_some]
      cases y <;> cases hk' : k.absorbing <;> simp [truth?, hk']
    rw [hmy, operandCalls_cons, hy]
    exact List.sublist_append_right _ _

/-- A rule inside the operands of a connective adds no call. -/
theorem OperandRule.spares {span : Span} {es fs : List Expr} (h : OperandRule k span es fs)
    (hes : ∀ e ∈ es, e.Over (.regular checks L D)) (hc : c.Declared D) {b : Bool}
    (hb : truth? L k es c = some b) :
    (operandCalls L k fs c).Sublist (operandCalls L k es c) := by
  cases h with
  | unwrap =>
    refine operandCalls_append_left (fun b _ => ?_) hb
    rw [operandCalls_cons, operandCalls_cons, test?_boolean]
    exact .refl _
  | splice =>
    rw [List.append_assoc]
    refine operandCalls_append_left (fun b _ => ?_) hb
    rw [operandCalls_cons, test?_connective, operandCalls_append]
    exact .refl _
  | neutral hv hn =>
    refine operandCalls_append_left (fun b _ => ?_) hb
    rw [operandCalls_cons, test?_literal hv, Option.elim_some, hn, if_neg (by simp)]
    exact .refl _
  | decided hv hd =>
    refine operandCalls_append_left (fun b _ => ?_) hb
    rw [operandCalls_cons, test?_ofBool, Option.elim_some, if_pos rfl]
    exact List.nil_sublist _
  | undefined hv =>
    refine operandCalls_append_left (fun b hb => ?_) hb
    rw [truth?_cons, test?_literal_error hv] at hb
    cases hb
  | unreached =>
    refine operandCalls_append_left (fun b hb => ?_) hb
    rw [truth?_cons] at hb
    cases hb
  | @duplicate ds fs d e _ hd hs =>
    simp only [List.forall_mem_append, List.forall_mem_cons] at hes
    rw [truth?_append] at hb
    obtain ⟨a, ha, -⟩ := Option.bind_eq_some_iff.mp hb
    rw [operandCalls_append, operandCalls_append, ha, Option.elim_some, Option.elim_some]
    refine List.Sublist.append (.refl _) ?_
    by_cases hk : a = k.absorbing
    · rw [if_pos hk, if_pos hk]
    obtain ⟨x, hx, hxk⟩ := truth?_undecided_same ha hk hd (value?_same hes.2.1 (hes.1 d hd) hs)
    rw [if_neg hk, if_neg hk, operandCalls_cons, hx, Option.elim_some, if_neg hxk]
    exact List.sublist_append_right _ _
  | merged hd he hm =>
    simp only [List.forall_mem_append, List.forall_mem_cons] at hes
    exact operandCalls_append_left
      (fun b hb => merge?_spares hd he hes.2.1 hes.2.2.1 hc hm hb) hb

/-- Negations make the calls that their arguments make under the opposite connective. -/
theorem operandCalls_negated {es args : List Expr} (h : negated? es = some args) :
    operandCalls L k es c = operandCalls L k.opposite args c := by
  induction es generalizing args with
  | nil => cases h; rfl
  | cons e es ih =>
    obtain ⟨arg, s, args', rfl, ha, rfl⟩ := negated?_cons h
    rw [operandCalls_cons, operandCalls_cons, test?_call, ih ha, Expr.calls]
    cases arg.test? L c with
    | none => rfl
    | some b => cases b <;> cases k <;> rfl

/-! ## Branches -/

/-- The calls of a switch whose choice is known before it runs. -/
def Choice.calls (L : Library) (c : Context) (default : List Call) :
    Except EvalError Choice → List Call → Prop
  | .ok .fallback, t => t = default
  | .ok (.branch r), t => t = r.calls L c
  | _, _ => True

theorem chooseCase_calls (i : Option Item) (span : Span) (cs : List (Expr × Expr))
    (default : List Call) :
    Choice.calls L c default (chooseCase i span cs) (caseCalls L i default cs c) := by
  induction cs with
  | nil => rfl
  | cons p cs ih =>
    obtain ⟨e, r⟩ := p
    cases e with
    | literal w =>
      simp only [chooseCase, caseCalls, Expr.calls, Expr.value?, Option.bind_some, List.nil_append]
      rcases w.single_cases span with ⟨t, hj, -⟩ | ⟨j, hj, hi⟩
      · rw [hj]; trivial
      · simp only [hj, hi, Option.elim_some]
        by_cases hm : matchesCase i j = true
        · simp only [hm, if_true]; rfl
        · simp only [hm, Bool.false_eq_true, if_false]
          exact ih
    | _ => trivial

/-- A switch on a value that is no sequence makes the calls of what is chosen before it runs. -/
theorem calls_switch {v : Value} {span : Span} {i : Option Item} (hi : v.single? span = .ok i)
    (cs : List (Expr × Expr)) (d : Expr) :
    Choice.calls L c (d.calls L c) (chooseCase i span cs)
      ((Expr.switch (.literal v) cs d span).calls L c) := by
  rw [Expr.calls, Expr.calls, Expr.value?, Option.bind_some,
    toOption_eq_some (Value.single_toOption _ _) hi]
  exact chooseCase_calls i span cs _

/-- A typeswitch on a value makes the calls of the first case that admits it. -/
theorem calls_typeswitch {v : Value} {cs : List (CaseHead × Expr)} {span : Span}
    {head : CaseHead} {r : Expr} (h : cs.find? (fun c => c.1.admits v) = some (head, r)) :
    (Expr.typeswitch (.literal v) cs span).calls L c = r.calls L (head.bind v c) := by
  rw [Expr.calls, Expr.calls, Expr.value?, Option.elim_some, List.nil_append]
  induction cs with
  | nil => cases h
  | cons q cs ih =>
    rw [typeCaseCalls]
    by_cases hq : q.1.admits v = true
    · rw [List.find?_cons_of_pos (by simpa using hq)] at h
      cases h
      rw [if_pos hq]
    · rw [List.find?_cons_of_neg (by simpa using hq)] at h
      rw [if_neg hq, ih h]

/-! ## Rules -/

/-- A rule at the root of a regular expression that yields something adds no call. -/
theorem Rule.spares {e e' : Expr} (h : Rule checks e (.ok e')) (he : e.Over (.regular checks L D))
    (hc : c.Declared D) {v : Value} (hv : e.value? L c = some v) :
    (e'.calls L c).Sublist (e.calls L c) := by
  cases h with
  | operands h =>
    rw [value?_connective] at hv
    obtain ⟨b, hb, -⟩ := Option.map_eq_some_iff.mp hv
    exact h.spares (Expr.every_connective.mp he).2 hc hb
  | singleOperand => exact List.sublist_append_left _ _
  | negations _ hn =>
    rw [Expr.calls, Expr.calls, Expr.calls, operandCalls_negated hn]
  | core => exact .refl _
  | isBoolean => exact .refl _
  | doubleNegation => exact .refl _
  | castVoid => exact .refl _
  | @switchDefault w i cs d span hi hd =>
    have hcs := calls_switch (L := L) (c := c) hi cs e'
    rw [hd] at hcs
    rw [hcs]
  | @switchBranch w i cs d r span hi hr =>
    have hcs := calls_switch (L := L) (c := c) hi cs d
    rw [hr] at hcs
    rw [hcs]
  | typeCase hf hn =>
    rw [calls_typeswitch hf]
    simp only [CaseHead.bind, hn]
    exact .refl _
  -- All that is left leads to a literal, which makes no call.
  | _ => exact List.nil_sublist _

/-! ## Rewriting -/

/-- Rewriting adds no call to a regular expression that yields something. -/
theorem Rewrites.spares {K : Known} {e : Expr} {r : Except CompileError Expr}
    (h : Rewrites checks K e r) (hV : (Vocabulary.regular checks L D).Knows K)
    (he : e.Over (.regular checks L D)) (hc : c.Declared D) (hp : c.Counts e) (hK : K.Holds c e)
    {v : Value} (hv : e.value? L c = some v) :
    ∀ e', r = .ok e' → (e'.calls L c).Sublist (e.calls L c) := by
  -- For every context, since the result of a case is evaluated in one with its variable bound.
  induction h generalizing c v with
  | refl => intro e' hr; cases hr; exact .refl _
  | trans h₁ _ ih₁ ih₂ =>
    intro e' hr
    obtain ⟨d, hd, hv'⟩ := h₁.yields hV he hc hp hK hv
    cases hd
    have ho := h₁.over Vocabulary.regular_closed hV he _ rfl
    exact (ih₂ hV ho hc (hp.rewrites h₁) (hK.rewrites h₁) hv' e' hr).trans
      (ih₁ hV he hc hp hK hv _ rfl)
  | rule h => intro e' hr; subst hr; exact h.spares he hc hv
  | inside F h ih =>
    intro e' hr
    cases hr
    have himp := Improves.plug (F := F) fun c' hc' => by
      obtain ⟨hdec, hK'⟩ := hc'.declared he hc hK
      have hp' := hp.plug.focus hc'.focus
      refine ⟨fun w hw => ?_, fun w hw => ih hV (Frame.over_plug he) hdec hp' hK' hw _ rfl⟩
      obtain ⟨d, hd, hw'⟩ := h.yields hV (Frame.over_plug he) hdec hp' hK' hw
      cases hd
      exact hw'
    exact himp.spares v hv
  | first => intro e' hr; cases hr
  | park => intro e' hr; cases hr; exact List.nil_sublist _
  | known => intro e' hr; cases hr; exact List.nil_sublist _
  | bound hf hx hr' hav ih =>
    intro e' hr
    cases hr
    obtain ⟨hV', hr⟩ := Vocabulary.regular_closed.bound hV hf hx he
    obtain ⟨hdec, hK'⟩ := hK.bound he hc hf hx
    rw [value?_typeswitch hf] at hv
    rw [calls_typeswitch hf]
    simp only [CaseHead.bind, hx] at hv ⊢
    have hp' := (hp.typeResult hf).focus rfl
    obtain ⟨d, hd, hv'⟩ := hr'.yields hV' hr hdec hp' hK' hv
    cases hd
    -- Outside of the case the variable is not bound, or to something else.
    exact ((Improves.agree hav (Context.agreeOff_bind _ _)).spares v hv').trans
      (ih hV' hr hdec hp' hK' hv _ rfl)
  | boundFails => intro e' hr; cases hr

/-! ## Compilation -/

/-- Compilation adds no call and reorders none. Where a regular expression yields something in a
regular context and with a steady host, it compiles, and the compiled expression yields the same and
makes some of the same calls, in the same order. -/
theorem compile_spares {σ : Type} {h : Host σ} (hh : h.Steady L) {e : Expr}
    (he : e.Over (.regular checks L D)) (hc : c.Regular D) {s s' : σ} {v : Value} {t : List Call}
    (hv : e.eval h.recording c (s, []) = (.ok v, s', t)) (ctx : CompileContext) :
    ∃ e', (ctx.compile checks e).1 = .ok e' ∧
      ∀ s, ∃ s' u, e'.eval h.recording c (s, []) = (.ok v, s', u) ∧ u.Sublist t := by
  have htraces {e : Expr} (he : e.Over (.regular checks L D)) :
      e.Traces h.recording (·.2) L c :=
    Expr.eval_traces h.recording_logs hh.recording Vocabulary.scoped_yieldsPlain.unscored he.scoped
      fun id v hv => (hc.plain id v hv).unscored
  obtain ⟨hvalue, hcalls⟩ := htraces he (s, [])
  rw [hv] at hvalue hcalls
  have hvalue : e.value? L c = some v := hvalue.symm
  have hcalls : t = e.calls L c := by simpa using hcalls
  have hr : Rewrites checks [] e (e.compile checks).value := e.compile_reaches.rewrites
  have hV : (Vocabulary.regular checks L D).Knows [] := fun p hp => nomatch hp
  have hK : Known.Holds [] c e := ⟨fun p hp => (nomatch hp), fun p hp => (nomatch hp)⟩
  obtain ⟨e', he', hv'⟩ := hr.preserves hV he hc hK hvalue
  have hsub := hr.spares hV he hc.declared (.regular hc e) hK hvalue e' he'
  have ho := hr.over Vocabulary.regular_closed hV he e' he'
  refine ⟨e', he', fun s => ?_⟩
  rcases (htraces ho (s, [])).cases with ⟨_, _, _, hn, _⟩ | ⟨w, ⟨s', u⟩, hw, hsome, hu⟩
  · rw [hv'] at hn; cases hn
  · rw [hv'] at hsome
    cases hsome
    refine ⟨s', u, hw, ?_⟩
    have hu : u = e'.calls L c := by simpa using hu
    rw [hu, hcalls]
    exact hsub

/-- The same call twice. -/
def repeatedCall : Expr :=
  let call : Expr := .external truism [.literal [.integer 1]] false .unknown
  .connective .conjunction [call, call] .unknown

/-- One of two equal calls is left. -/
theorem compile_spares_repeatedCall :
    let h := (Library.host fun _ _ => some (.ofBool true)).recording
    let ctx := CompileContext.start {} .empty
    let t : List Call := [⟨"holds", [[.integer 1]]⟩, ⟨"holds", [[.integer 1]]⟩]
    repeatedCall.eval h (Context.empty true) ((), []) = (.ok (.ofBool true), (), t) ∧
    ∃ e', (ctx.compile (fun _ _ _ => .ok ()) repeatedCall).1 = .ok e' ∧
      ∀ s, ∃ s' u, e'.eval h (Context.empty true) (s, []) = (.ok (.ofBool true), s', u) ∧
        u.Sublist t := by
  intro h ctx t
  have he : repeatedCall.Over (.regular (fun _ _ _ => .ok ()) (fun _ _ => some (.ofBool true))
      fun _ => none) := by
    have hfn : truism.IsRegular (fun _ _ _ => .ok ()) fun _ _ => some (.ofBool true) := by
      refine ⟨fun _ _ => rfl, fun vs v hv => ?_⟩
      cases hv
      exact ⟨rfl, Value.plain_ofBool true⟩
    have hone : Value.Plain [.integer 1] := Value.plain_singleton.mpr trivial
    have hcall : (Expr.external truism [.literal [.integer 1]] false .unknown).Over
        (.regular (fun _ _ _ => .ok ()) (fun _ _ => some (.ofBool true)) fun _ => none) :=
      Expr.every_external.mpr ⟨hfn, List.forall_mem_singleton.mpr (Expr.every_literal.mpr hone)⟩
    exact Expr.every_connective.mpr
      ⟨trivial, List.forall_mem_cons.mpr ⟨hcall, List.forall_mem_singleton.mpr hcall⟩⟩
  have hc : (Context.empty true).Regular fun _ => none :=
    ⟨fun _ _ _ h => (nomatch h), fun _ _ h => (nomatch h), fun _ h => (nomatch h)⟩
  have hv : repeatedCall.eval h (Context.empty true) ((), []) = (.ok (.ofBool true), (), t) := rfl
  exact ⟨hv, compile_spares (Library.host_steady _) he hc hv ctx⟩

/-- The answers of five functions: two numbers, the number in the second argument, and truth. -/
def fiveAnswers : Library
  | "h1", _ => some [.integer 0]
  | "h2", _ => some [.integer 1]
  | "k", [_, [.integer i]] => some [.integer i]
  | "k", _ => some [.integer 0]
  | "yes", _ => some (.ofBool true)
  | "no", _ => some (.ofBool true)
  | _, _ => none

/-- The second of two arguments, which is a number that a call yields. The call is told whether some
of the items of a variable is three or a text. -/
def numberOf (name : String) : Expr :=
  let x : Expr := .var ⟨0, "x", none⟩ .unknown
  .external ⟨2, "k", .one .integer, true⟩
    [.literal [.integer 1],
      .external ⟨0, name, .one .integer, true⟩
        [.connective .disjunction
          [.compare .eq x (.literal [.integer 3]) .unknown,
            .compare .eq x (.literal [.string "a"]) .unknown] .unknown]
        false .unknown]
    false .unknown

def answerOf (name : String) : Expr := .external ⟨3, name, .booleanOne, true⟩ [] false .unknown

/-- A switch on whether two numbers lie in two ranges that have no number in common. -/
def disjointTests : Expr :=
  .switch
    (.typeswitch (.literal [.integer 5, .integer 3])
      [(⟨some ⟨0, "x", none⟩, none⟩,
        .connective .conjunction
          [.range ⟨.zero false, true, .zero false, true⟩ (numberOf "h1") .unknown,
            .range ⟨.zero false, false, .infinite false, true⟩ (numberOf "h2") .unknown]
          .unknown)]
      .unknown)
    [(.ofBool true, answerOf "yes")] (answerOf "no") .unknown

theorem fiveAnswers_cases {name : String} {vs : List Value} {v : Value}
    (h : fiveAnswers name vs = some v) :
    (name ∈ ["h1", "h2", "k"] ∧ ∃ i, v = [.integer i]) ∨
      name ∈ ["yes", "no"] ∧ v = .ofBool true := by
  unfold fiveAnswers at h
  split at h <;> cases h <;> simp

theorem fiveAnswers_regular {key : Nat} {name : String} {a : Atom}
    (h : (name ∈ ["h1", "h2", "k"] ∧ a = .integer) ∨ (name ∈ ["yes", "no"] ∧ a = .boolean)) :
    ExternalFn.IsRegular ⟨key, name, .one a, true⟩ (fun _ _ _ => .ok ()) fiveAnswers := by
  refine ⟨fun _ _ => rfl, fun vs v hv => ?_⟩
  rcases h with ⟨hn, rfl⟩ | ⟨hn, rfl⟩ <;> rcases fiveAnswers_cases hv with ⟨hy, i, rfl⟩ | ⟨hy, rfl⟩
  · exact ⟨rfl, Value.plain_singleton.mpr trivial⟩
  · simp only [List.mem_cons, List.not_mem_nil, or_false] at hn hy; grind
  · simp only [List.mem_cons, List.not_mem_nil, or_false] at hn hy; grind
  · exact ⟨rfl, Value.plain_ofBool true⟩

theorem numberOf_over {V : Vocabulary} {name : String} (hx : V.var ⟨0, "x", none⟩)
    (hk : V.fn ⟨2, "k", .one .integer, true⟩) (hfn : V.fn ⟨0, name, .one .integer, true⟩)
    (hleft : ∀ l, V.left .eq l) (hv : ∀ v : Value, v.Plain → V.value v) :
    (numberOf name).Over V := by
  have htest {v : Value} (hp : v.Plain) :
      (Expr.compare .eq (.var ⟨0, "x", none⟩ .unknown) (.literal v) .unknown).Over V :=
    Expr.every_compare.mpr ⟨hleft _, Expr.every_var.mpr hx, Expr.every_literal.mpr (hv v hp)⟩
  have hplain (i : Int64) : Value.Plain [.integer i] := Value.plain_singleton.mpr trivial
  refine Expr.every_external.mpr ⟨hk, List.forall_mem_cons.mpr
    ⟨Expr.every_literal.mpr (hv _ (hplain 1)), List.forall_mem_singleton.mpr ?_⟩⟩
  refine Expr.every_external.mpr ⟨hfn, List.forall_mem_singleton.mpr ?_⟩
  refine Expr.every_connective.mpr ⟨trivial, List.forall_mem_cons.mpr ⟨htest (hplain 3), ?_⟩⟩
  exact List.forall_mem_singleton.mpr (htest (Value.plain_singleton.mpr trivial))

/-- Apart from the left side of the equalities, all is as it should be. -/
theorem disjointTests_over :
    disjointTests.Over (.scoped (fun _ _ _ => .ok ()) fiveAnswers fun _ => none) := by
  have hk : (Vocabulary.scoped (fun _ _ _ => .ok ()) fiveAnswers fun _ => none).fn
      ⟨2, "k", .one .integer, true⟩ := fiveAnswers_regular (.inl ⟨by simp, rfl⟩)
  have htests {V : Vocabulary} (h₁ : (numberOf "h1").Over V) (h₂ : (numberOf "h2").Over V) :
      (Expr.connective .conjunction
        [.range ⟨.zero false, true, .zero false, true⟩ (numberOf "h1") .unknown,
          .range ⟨.zero false, false, .infinite false, true⟩ (numberOf "h2") .unknown]
        .unknown).Over V := by
    refine Expr.every_connective.mpr ⟨trivial, List.forall_mem_cons.mpr
      ⟨Expr.every_range.mpr ⟨trivial, h₁⟩, List.forall_mem_singleton.mpr ?_⟩⟩
    exact Expr.every_range.mpr ⟨trivial, h₂⟩
  have hanswer {name : String} (hn : name ∈ ["yes", "no"]) : (answerOf name).Over
      (.scoped (fun _ _ _ => .ok ()) fiveAnswers fun _ => none) :=
    Expr.every_external.mpr ⟨fiveAnswers_regular (.inr ⟨hn, rfl⟩), nofun⟩
  refine Expr.every_switch.mpr ⟨trivial, Expr.every_typeswitch.mpr ⟨⟨rfl, ?_⟩, ?_, ?_⟩,
    List.forall_mem_singleton.mpr ⟨?_, hanswer (by simp)⟩, hanswer (by simp)⟩
  · refine List.forall_mem_singleton.mpr fun y hy => ?_
    cases hy
    exact ⟨rfl, nofun, htests (numberOf_over trivial trivial trivial (fun _ => trivial)
      fun _ _ => trivial) (numberOf_over trivial trivial trivial (fun _ => trivial)
      fun _ _ => trivial)⟩
  · refine Expr.every_literal.mpr fun i hi => ?_
    simp only [List.mem_cons, List.not_mem_nil, or_false] at hi
    rcases hi with rfl | rfl <;> trivial
  · refine List.forall_mem_singleton.mpr (htests ?_ ?_)
    · exact numberOf_over rfl hk (fiveAnswers_regular (.inl ⟨by simp, rfl⟩)) (fun _ => trivial)
        fun _ => id
    · exact numberOf_over rfl hk (fiveAnswers_regular (.inl ⟨by simp, rfl⟩)) (fun _ => trivial)
        fun _ => id
  · exact Expr.every_literal.mpr (Value.plain_ofBool true)

/-- Where two items are left of an equality, its alternatives may not be merged. The merged test of
the two integers fails where the first alternative held, and since nothing else tells the arguments
of `k` apart, the ranges are taken for ranges of one number. So the switch comes to another answer,
and its call is a new one. -/
theorem compile_adds_disjointTests :
    let h := fiveAnswers.host.recording
    let ctx := CompileContext.start {} .empty
    let asked (name : String) : Call := ⟨name, [Value.ofBool true]⟩
    let passed (i : Int64) : Call := ⟨"k", [[.integer 1], [.integer i]]⟩
    let t : List Call := [asked "h1", passed 0, asked "h2", passed 1, ⟨"yes", []⟩]
    disjointTests.Over (.scoped (fun _ _ _ => .ok ()) fiveAnswers fun _ => none) ∧
      disjointTests.eval h (Context.empty true) ((), []) = (.ok (.ofBool true), (), t) ∧
      ∃ e', (ctx.compile (fun _ _ _ => .ok ()) disjointTests).1 = .ok e' ∧
        e'.eval h (Context.empty true) ((), []) = (.ok (.ofBool true), (), [⟨"no", []⟩]) ∧
        ¬ [⟨"no", []⟩].Sublist t := by
  intro h ctx asked passed t
  have hcompiled : ((ctx.compile (fun _ _ _ => .ok ()) disjointTests).1.toOption.map fun e =>
      let x := e.eval h (Context.empty true) ((), [])
      (x.1.toOption, x.2)) = some (some (.ofBool true), (), [⟨"no", []⟩]) := by decide +kernel
  obtain ⟨e', he', hx⟩ := Option.map_eq_some_iff.mp hcompiled
  obtain ⟨hv, ht⟩ := Prod.ext_iff.mp hx
  refine ⟨disjointTests_over, Prod.ext (toOption_eq_some_iff.mp ?_) ?_, e',
    toOption_eq_some_iff.mp he', Prod.ext (toOption_eq_some_iff.mp hv) ht, by decide⟩
  · decide +kernel
  · decide +kernel

end

end QueryExpr
