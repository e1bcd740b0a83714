import QueryExpr.Proofs.Decision
import QueryExpr.Proofs.Outcome
import QueryExpr.Proofs.Stages

/-!
# QueryExpr.Proofs.Fair

Expressions that a host treats as their types and marks say.

* `Expr.Fair`  — values conform to their types, scores are of a set, and marks of chance are true.
* `Expr.Fair.ebv_same` — an expression without a mark of chance answers as an equal one has done.
* `Expr.Lands` — what the optimiser of a connective leaves behind: a truth value, and a state.
* `optimizeBoolean_lands`, `optimizeNot_lands` — the boolean functions around an operand.
-/

namespace QueryExpr

/-! ## Fair expressions -/

/-- No literal is a negative zero, a function that is marked deterministic is no matter of chance,
and the left side of an equality has at most one item. -/
def Expr.Candid (chance : String → Bool) : Expr → Prop
  | .literal v => v.Canonical
  | .external fn _ _ _ => fn.deterministic = true → chance fn.name = false
  | .compare op l _ _ => op = .eq → l.type.atMostOne = true
  | _ => True

/-- An expression that a host and a context treat as its types and marks say, with scores of some
set. -/
structure Expr.Fair {σ : Type} (h : Host σ) (chance : String → Bool) (S : Score → Prop)
    (c : Context) (e : Expr) : Prop where
  conforming : e.Throughout h (Conforming h) c
  scored : e.Throughout h (Scored h S) c
  candid : e.Every (Candid chance)

section
variable {σ : Type} {h : Host σ} {chance : String → Bool} {L : Library} {S : Score → Prop}
  {c : Context} {k : Connective} {span : Span}

/-- Two expressions of which the second, evaluated after the first, yields the same again. -/
def Expr.Repeats (h : Host σ) (c : Context) (e d : Expr) : Prop :=
  ∀ s v s', e.eval h c s = (.ok v, s') → s' = s ∧ d.eval h c s = (.ok v, s)

/-- An expression that yields at most one item. -/
def Expr.YieldsOne (h : Host σ) (c : Context) (e : Expr) : Prop :=
  ∀ s v s', e.eval h c s = (.ok v, s') → v.length ≤ 1

namespace Expr.Fair

theorem operand {es : List Expr} (hf : (Expr.connective k es span).Fair h chance S c) :
    ∀ e ∈ es, e.Fair h chance S c := by
  obtain ⟨hc, hs, hd⟩ := hf
  cases hc with
  | connective _ hc =>
    cases hs with
    | connective _ hs => exact fun e he => ⟨hc e he, hs e he, (every_connective.mp hd).2 e he⟩

theorem connective {es : List Expr} (hes : ∀ e ∈ es, e.Fair h chance S c) :
    (Expr.connective k es span).Fair h chance S c where
  conforming := .connective trivial fun e he => (hes e he).conforming
  scored := .connective trivial fun e he => (hes e he).scored
  candid := every_connective.mpr ⟨trivial, fun e he => (hes e he).candid⟩

theorem argument {fn : Builtin} {e : Expr} (hf : (Expr.call fn e span).Fair h chance S c) :
    e.Fair h chance S c := by
  obtain ⟨hc, hs, hd⟩ := hf
  cases hc with
  | call _ hc =>
    cases hs with
    | call _ hs => exact ⟨hc, hs, (every_call.mp hd).2⟩

theorem call {fn : Builtin} {e : Expr} (hf : e.Fair h chance S c) :
    (Expr.call fn e span).Fair h chance S c where
  conforming := .call trivial hf.conforming
  scored := .call trivial hf.scored
  candid := every_call.mpr ⟨trivial, hf.candid⟩

theorem failing (cause : CompileError) (t : SeqType) :
    (Expr.failing cause t span).Fair h chance S c :=
  ⟨.failing trivial, .failing trivial, every_failing.mpr trivial⟩

theorem position (a b : Int64) : (Expr.position a b span).Fair h chance S c :=
  ⟨.position trivial, .position trivial, every_position.mpr trivial⟩

theorem rangeOperand {b : Bounds} {e : Expr} (hf : (Expr.range b e span).Fair h chance S c) :
    e.Fair h chance S c := by
  obtain ⟨hc, hs, hd⟩ := hf
  cases hc with
  | range _ hc =>
    cases hs with
    | range _ hs => exact ⟨hc, hs, (every_range.mp hd).2⟩

theorem range {e : Expr} (b : Bounds) (hf : e.Fair h chance S c) :
    (Expr.range b e span).Fair h chance S c where
  conforming := .range trivial hf.conforming
  scored := .range trivial hf.scored
  candid := every_range.mpr ⟨trivial, hf.candid⟩

theorem literal {v : Value} (hs : v.ScoredIn S) (hv : v.Canonical) :
    (Expr.literal v).Fair h chance S c :=
  ⟨.literal trivial, .literal hs, every_literal.mpr hv⟩

/-- The parts of an equality test against a literal. -/
theorem equality {l : Expr} {v : Value}
    (hf : (Expr.compare .eq l (.literal v) span).Fair h chance S c) :
    l.Fair h chance S c ∧ l.type.atMostOne = true ∧ v.ScoredIn S ∧ v.Canonical := by
  obtain ⟨hc, hs, hd⟩ := hf
  obtain ⟨hone, hl, hlit⟩ := every_compare.mp hd
  cases hc with
  | compare _ hc =>
    cases hs with
    | compare _ hs hv =>
      cases hv with
      | literal hv => exact ⟨⟨hc, hs, hl⟩, hone rfl, hv, every_literal.mp hlit⟩

theorem compare {l : Expr} {v : Value} (hl : l.Fair h chance S c) (hone : l.type.atMostOne = true)
    (hs : v.ScoredIn S) (hv : v.Canonical) :
    (Expr.compare .eq l (.literal v) span).Fair h chance S c where
  conforming := .compare trivial hl.conforming (.literal trivial)
  scored := .compare trivial hl.scored (.literal hs)
  candid := every_compare.mpr ⟨fun _ => hone, hl.candid, every_literal.mpr hv⟩

theorem yields (hS : Score.Closed S) {e : Expr} (hf : e.Fair h chance S c) :
    e.YieldsScored h S c :=
  eval_scored hS hf.scored

/-- A settled expression yields a value of its type. -/
theorem admits {e : Expr} (hf : e.Fair h chance S c) (hs : e.Settled) {s s' : σ} {v : Value}
    (hv : e.eval h c s = (.ok v, s')) : e.type.admits v = true :=
  eval_conforms hf.conforming hs.castsRight hv

theorem yieldsOne {e : Expr} (hf : e.Fair h chance S c) (hs : e.Settled)
    (ht : e.type.atMostOne = true) : e.YieldsOne h c :=
  fun _ _ _ hv => length_of_admits ht (hf.admits hs hv)

/-- An expression without a mark of chance calls no function of chance. -/
theorem callsOnly {e : Expr} (hf : e.Every (Candid chance)) (hr : e.isRandom = false) :
    e.CallsOnly fun n => chance n = false := by
  intro n hn
  have hcandid := hf n hn
  have hdeterministic := every_deterministic hr n hn
  cases n with
  | external fn es tail span => exact hcandid hdeterministic
  | _ => trivial

theorem canonical {e : Expr} (hf : e.Every (Candid chance)) : e.Every IsCanonical :=
  hf.imp fun n hn => by
    cases n with
    | literal v => exact hn
    | _ => trivial

/-- An expression without a mark of chance agrees with what is equal to it, in whatever states the
two are evaluated. -/
theorem agreeOn_same (hh : h.Draws chance L) {e d : Expr} (hf : e.Fair h chance S c)
    (hd : d.Fair h chance S c) (hr : e.isRandom = false) (hsame : e.same d = true) (s t : σ) :
    AgreeOn h h (fun s' t' => s' = s ∧ t' = t) c e d :=
  (alike_of_same (callsOnly hf.candid hr) (canonical hf.candid) (canonical hd.candid) hsame).eval
    (hh.agrees s t) c

theorem repeats (hh : h.Draws chance L) {e d : Expr} (hf : e.Fair h chance S c)
    (hd : d.Fair h chance S c) (hr : e.isRandom = false) (hsame : e.same d = true) :
    e.Repeats h c d := by
  intro s v s' hv
  obtain ⟨t', ht, rfl, rfl⟩ := (hf.agreeOn_same hh hd hr hsame s s s s ⟨rfl, rfl⟩).of_ok hv
  exact ⟨rfl, ht⟩

/-- It answers as what is equal to it has answered before. -/
theorem ebv_same (hh : h.Draws chance L) {e d : Expr} (hf : e.Fair h chance S c)
    (hd : d.Fair h chance S c) (hr : e.isRandom = false) (hsame : e.same d = true) {s s' : σ}
    {b : Truth} (hb : d.ebv h c s = (.ok b, s')) (t : σ) : e.ebv h c t = (.ok b, t) := by
  rcases ((hf.agreeOn_same hh hd hr hsame t s).ebv ⟨rfl, rfl⟩).cases with
    ⟨_, _, _, _, _, hy⟩ | ⟨a, t', s₁, hx, hy, rfl, -⟩
  · rw [hb] at hy; cases hy
  · rw [hb] at hy; cases hy; exact hx

end Expr.Fair

theorem Score.Closed.fair_ofBool (hS : Score.Closed S) (b : Bool) :
    (Expr.ofBool b).Fair h chance S c :=
  .literal (hS.ofBool b) fun i hi => by
    cases List.mem_singleton.mp hi
    exact Item.Plain.canonical rfl

/-! ## Boolean functions -/

theorem ebv_of_eval {e : Expr} {b : Truth} {s s' : σ}
    (he : e.eval h c s = (.ok (.ofTruth b), s')) : e.ebv h c s = (.ok b, s') := by
  rw [ebv_steps, he]
  rfl

/-- The place of a test does not matter for its result. -/
theorem ebv_at {v : Value} {span : Span} {b : Truth} (hb : v.ebv span = .ok b) (span' : Span) :
    v.ebv span' = .ok b := by
  have heq := (v.ebv_grade span').trans (v.ebv_grade span).symm
  rw [hb] at heq
  exact toOption_eq_some_iff.mp heq

theorem asCondition_ebv (e : Expr) (s : σ) : e.asCondition.value.ebv h c s = e.ebv h c s := by
  induction e with
  | call fn arg span ih =>
    cases fn with
    | boolean => exact ih.trans (ebv_boolean arg span s).symm
    | not => rfl
  | _ => rfl

theorem Expr.Fair.asCondition {e : Expr} (hf : e.Fair h chance S c) :
    e.asCondition.value.Fair h chance S c := by
  induction e with
  | call fn arg span ih =>
    cases fn with
    | boolean => exact ih hf.argument
    | not => exact hf
  | _ => exact hf

/-- What is statically one boolean is evaluated to its truth. -/
theorem Expr.Fair.eval_boolean {e : Expr} (hf : e.Fair h chance S c) (hs : e.Settled)
    (ht : e.type = .booleanOne) {s s' : σ} {b : Truth} (hb : e.ebv h c s = (.ok b, s')) :
    e.eval h c s = (.ok (.ofTruth b), s') := by
  obtain ⟨v, hv, hb⟩ := ebv_eq_ok.mp hb
  have hadm := hf.admits hs hv
  rw [ht] at hadm
  obtain ⟨a, rfl⟩ := SeqType.booleanOne_admits hadm
  cases hb
  exact hv

/-- What the optimiser of a connective leaves behind: settled, fair, and evaluated to a truth
value. -/
structure Expr.Lands (h : Host σ) (chance : String → Bool) (S : Score → Prop) (c : Context)
    (s : σ) (b : Truth) (s' : σ) (e : Expr) : Prop where
  settled : e.Settled
  fair : e.Fair h chance S c
  eval : e.eval h c s = (.ok (.ofTruth b), s')

theorem optimizeBoolean_lands (hS : Score.Closed S) {e : Expr}
    (hs : e.Settled) (hf : e.Fair h chance S c) {s s' : σ} {b : Truth}
    (hb : e.ebv h c s = (.ok b, s')) (span : Span) :
    ∃ d, (optimizeBoolean e span).value = .ok d ∧ d.Lands h chance S c s b s' := by
  have hcore := asCondition_settled hs
  have hfair := hf.asCondition
  rw [← asCondition_ebv] at hb
  obtain ⟨d, hd, hland⟩ : ∃ d, (optimizeBoolean e span).value = .ok d ∧
      d.Fair h chance S c ∧ d.eval h c s = (.ok (.ofTruth b), s') := by
    simp only [optimizeBoolean, Attempt.value_after]
    split
    · rename_i v hv
      rw [hv] at hb hfair
      obtain ⟨hebv, rfl⟩ : v.ebv .unknown = .ok b ∧ s = s' := Prod.mk.inj hb
      have hscore : S b.score := hS.ebv (hfair.yields hS s v s rfl) hebv
      have hcanonical : v.Canonical := Expr.every_literal.mp hfair.candid
      rw [ebv_at hebv span]
      exact ⟨_, rfl, .literal (Value.scoredIn_ofTruth.mpr hscore) (hcanonical.ebv hebv), rfl⟩
    · split
      · rename_i ht
        exact ⟨_, rfl, hfair, hfair.eval_boolean hcore ht hb⟩
      · exact ⟨_, rfl, hfair.call, eval_call_eq_ok.mpr ⟨_, hb, rfl⟩⟩
  exact ⟨d, hd, optimizeBoolean_settled hs span d hd, hland.1, hland.2⟩

theorem optimizeNot_lands (hS : Score.Closed S) {e : Expr}
    (hs : e.Settled) (hf : e.Fair h chance S c) {s s' : σ} {b : Truth}
    (hb : e.ebv h c s = (.ok b, s')) (span : Span) :
    ∃ d, (optimizeNot e span).value = .ok d ∧
      ∃ t, t.value = !b.value ∧ d.Lands h chance S c s t s' := by
  have hcore := asCondition_settled hs
  have hfair := hf.asCondition
  rw [← asCondition_ebv] at hb
  obtain ⟨d, hd, t, ht, hland⟩ : ∃ d, (optimizeNot e span).value = .ok d ∧
      ∃ t, t.value = !b.value ∧ d.Fair h chance S c ∧ d.eval h c s = (.ok (.ofTruth t), s') := by
    simp only [optimizeNot, Attempt.value_after]
    split
    · rename_i v hv
      rw [hv] at hb
      obtain ⟨hebv, rfl⟩ : v.ebv .unknown = .ok b ∧ s = s' := Prod.mk.inj hb
      rw [ebv_at hebv span]
      exact ⟨_, rfl, .plain !b.value, rfl, hS.fair_ofBool _, rfl⟩
    · rename_i inner span' hv
      rw [hv] at hb hfair hcore
      obtain ⟨a, ha, rfl⟩ := ebv_of_not hb
      obtain ⟨d, hd, hland⟩ := optimizeBoolean_lands hS (Expr.every_call.mp hcore).2
        hfair.argument ha span
      rw [Attempt.value_after, Attempt.andThen_of_ok hd]
      exact ⟨d, rfl, a, by simp [Truth.plain], hland.fair, hland.eval⟩
    · exact ⟨_, rfl, .plain !b.value, rfl, hfair.call, eval_call_eq_ok.mpr ⟨_, hb, rfl⟩⟩
  have hreach : Reaches (fun _ _ _ => .ok ()) [] _ (optimizeNot e span).value :=
    optimizeNot_reaches hs span
  exact ⟨d, hd, t, ht, hreach.settled d hd, hland.1, hland.2⟩

end
end QueryExpr
