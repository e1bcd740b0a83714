import QueryExpr.Proofs.Alike

/-!
# QueryExpr.Proofs.Throughout

What holds of every node of an expression in every context in which a host may evaluate it.

* `Expr.Throughout`  — such a property; the result of a case is met with the variable bound to what
  the operand may yield.
* `Expr.Conforming`  — a bound value is of the type of its variable, and so are results of
  functions.
* `Expr.eval_conforms` — where this holds throughout, an expression yields a value of its type.
* `Expr.Scored`      — literals, bound values and results of functions have scores of some set only.
* `Expr.eval_scored` — where this holds throughout, values have no other scores.

Nothing is asked of contexts in which no node is evaluated, nor of declarations as such.
-/

namespace QueryExpr

section
variable {σ : Type}

/-- A property of all nodes, each in every context in which a host may evaluate it. -/
inductive Expr.Throughout (h : Host σ) (N : Expr → Context → Prop) : Expr → Context → Prop where
  | connective {k : Connective} {es : List Expr} {span : Span} {c : Context} :
    N (.connective k es span) c → (∀ e ∈ es, e.Throughout h N c) →
    Throughout h N (.connective k es span) c
  | switch {e d : Expr} {cs : List (Expr × Expr)} {span : Span} {c : Context} :
    N (.switch e cs d span) c → e.Throughout h N c → (∀ p ∈ cs, p.1.Throughout h N c) →
    (∀ p ∈ cs, p.2.Throughout h N c) → d.Throughout h N c →
    Throughout h N (.switch e cs d span) c
  | typeswitch {e : Expr} {cs : List (CaseHead × Expr)} {span : Span} {c : Context} :
    N (.typeswitch e cs span) c → e.Throughout h N c →
    (∀ s v s', e.eval h c s = (.ok v, s') → ∀ p ∈ cs, p.1.admits v = true →
      p.2.Throughout h N (p.1.bind v c)) → Throughout h N (.typeswitch e cs span) c
  | cast {e : Expr} {t : SeqType} {span : Span} {c : Context} : N (.cast e t span) c →
    e.Throughout h N c → Throughout h N (.cast e t span) c
  | call {fn : Builtin} {e : Expr} {span : Span} {c : Context} : N (.call fn e span) c →
    e.Throughout h N c → Throughout h N (.call fn e span) c
  | compare {op : CompareOp} {l r : Expr} {span : Span} {c : Context} :
    N (.compare op l r span) c → l.Throughout h N c → r.Throughout h N c →
    Throughout h N (.compare op l r span) c
  | range {b : Bounds} {e : Expr} {span : Span} {c : Context} : N (.range b e span) c →
    e.Throughout h N c → Throughout h N (.range b e span) c
  | position {a b : Int64} {span : Span} {c : Context} : N (.position a b span) c →
    Throughout h N (.position a b span) c
  | literal {v : Value} {c : Context} : N (.literal v) c → Throughout h N (.literal v) c
  | var {x : Var} {span : Span} {c : Context} : N (.var x span) c →
    Throughout h N (.var x span) c
  | external {fn : ExternalFn} {es : List Expr} {tail : Bool} {span : Span} {c : Context} :
    N (.external fn es tail span) c → (∀ e ∈ es, e.Throughout h N c) →
    Throughout h N (.external fn es tail span) c
  | failing {cause : CompileError} {t : SeqType} {span : Span} {c : Context} :
    N (.failing cause t span) c → Throughout h N (.failing cause t span) c

end

/-- What holds throughout under one host holds under another one that yields nothing else. -/
theorem Expr.Throughout.transfer {σ τ : Type} {h : Host σ} {g : Host τ}
    {N M : Expr → Context → Prop} (hN : ∀ e c, N e c → M e c)
    (heval : ∀ (e : Expr) c t v t', e.eval g c t = (.ok v, t') → ∃ s s', e.eval h c s = (.ok v, s'))
    {e : Expr} {c : Context} (he : e.Throughout h N c) : e.Throughout g M c := by
  induction he with
  | connective hn _ ih => exact .connective (hN _ _ hn) ih
  | switch hn _ _ _ _ ihe ihv ihr ihd => exact .switch (hN _ _ hn) ihe ihv ihr ihd
  | typeswitch hn _ _ ihe ihcs =>
    refine .typeswitch (hN _ _ hn) ihe fun t v t' hv p hp hadm => ?_
    obtain ⟨s, s', hv⟩ := heval _ _ _ _ _ hv
    exact ihcs s v s' hv p hp hadm
  | cast hn _ ih => exact .cast (hN _ _ hn) ih
  | call hn _ ih => exact .call (hN _ _ hn) ih
  | compare hn _ _ ihl ihr => exact .compare (hN _ _ hn) ihl ihr
  | range hn _ ih => exact .range (hN _ _ hn) ih
  | position hn => exact .position (hN _ _ hn)
  | literal hn => exact .literal (hN _ _ hn)
  | var hn => exact .var (hN _ _ hn)
  | external hn _ ih => exact .external (hN _ _ hn) ih
  | failing hn => exact .failing (hN _ _ hn)

section
variable {σ : Type} {h : Host σ} {c : Context}

/-! ## Types -/

/-- A bound value is of the type of the variable that is read, and a function yields values of its
type. -/
def Expr.Conforming (h : Host σ) : Expr → Context → Prop
  | .var x _, c => ∀ v, c.lookup x.id = some v → x.seqType.admits v = true
  | .external fn _ _ _, _ =>
    ∀ vs info s v s', h.invoke fn vs info s = (.ok v, s') → fn.type.admits v = true
  | _, _ => True

/-- A cast names a type that casts may name. -/
def Expr.CastsRight : Expr → Prop
  | .cast _ t _ => t.isCastTarget = true
  | _ => True

theorem Expr.Settled.castsRight {e : Expr} (he : e.Settled) : e.Every CastsRight :=
  he.imp fun n hn => by
    cases n with
    | cast => exact hn.1
    | _ => trivial

/-- Where bound values and results of functions conform, an expression yields a value of its
type. -/
theorem Expr.eval_conforms {e : Expr} (he : e.Throughout h (Conforming h) c)
    (hs : e.Every CastsRight) {s s' : σ} {v : Value} (hv : e.eval h c s = (.ok v, s')) :
    e.type.admits v = true := by
  induction he generalizing s s' v with
  | @connective k =>
    cases k with
    | conjunction => obtain ⟨b, rfl⟩ := evalAll_boolean hv; exact ofTruth_admits b
    | disjunction => obtain ⟨b, rfl⟩ := evalAny_boolean hv; exact ofTruth_admits b
  | switch _ _ _ _ _ _ _ ihr ihd =>
    obtain ⟨-, -, hcs, hd⟩ := every_switch.mp hs
    refine switchType_admits ?_
    rcases eval_switch_eq_ok hv with ⟨s₁, hv⟩ | ⟨p, hp, s₁, s₂, hr⟩
    · exact .inl (ihd hd hv)
    · exact .inr ⟨p, hp, ihr p hp (hcs p hp).2 hr⟩
  | typeswitch _ _ _ _ ihcs =>
    obtain ⟨-, -, hcs⟩ := every_typeswitch.mp hs
    obtain ⟨u, s₁, hu, p, hp, hadm, s₂, s₃, hr⟩ := eval_typeswitch_eq_ok hv
    exact typeswitchType_admits (.inr ⟨p, hp, ihcs _ _ _ hu p hp hadm (hcs p hp) hr⟩)
  | cast =>
    obtain ⟨u, -, hcast⟩ := Expr.eval_eq_ok.mp hv
    exact SeqType.castTarget_admits (every_cast.mp hs).1 hcast
  | @call fn =>
    obtain ⟨b, -, rfl⟩ := eval_call_eq_ok.mp hv
    cases fn <;> exact ofTruth_admits _
  | compare =>
    obtain ⟨b, rfl⟩ := Answers.eval_ofBool hv trivial
    exact ofTruth_admits _
  | range =>
    obtain ⟨b, rfl⟩ := Answers.eval_ofBool hv trivial
    exact ofTruth_admits _
  | position =>
    obtain ⟨b, rfl⟩ := Answers.eval_ofBool hv trivial
    exact ofTruth_admits _
  | literal => cases hv; exact Value.admits_type _
  | var hn => exact hn _ (Expr.eval_eq_ok.mp hv).2
  | external hn =>
    obtain ⟨vs, s₁, -, hi⟩ := Expr.eval_eq_ok.mp hv
    exact hn vs _ s₁ v s' hi
  | failing => cases hv

/-! ## Scores -/

/-- A set of scores that combination does not leave, and in which a score is never lost by adding it
to another one. -/
structure Score.Closed (S : Score → Prop) : Prop where
  zero : S .zero
  both : ∀ {r t}, S r → S t → S (r.both t)
  either : ∀ {r t}, S r → S t → S (r.either t)
  either_isZero : ∀ {r t}, S r → S t → t.isZero = false → (r.either t).isZero = false

theorem Score.closed_admitted : Closed Admitted where
  zero := .inl proper_zero
  both := Admitted.both
  either := Admitted.either
  either_isZero := Admitted.either_isZero

theorem Score.closed_zero : Closed (· = zero) where
  zero := rfl
  both := by rintro _ _ rfl rfl; exact proper_zero.both_zero
  either := by rintro _ _ rfl rfl; exact proper_zero.zero_either
  either_isZero := by rintro _ _ _ rfl h; cases h

/-- The score of a boolean is in a set. -/
def Item.ScoredIn (S : Score → Prop) : Item → Prop
  | .bool b => S b.score
  | _ => True

/-- All scores of a value are in a set. -/
def Value.ScoredIn (S : Score → Prop) (v : Value) : Prop := ∀ i ∈ v, i.ScoredIn S

/-- Literals, bound values and results of functions have scores of a set only. -/
def Expr.Scored (h : Host σ) (S : Score → Prop) : Expr → Context → Prop
  | .literal v, _ => v.ScoredIn S
  | .var x _, c => ∀ v, c.lookup x.id = some v → v.ScoredIn S
  | .external fn _ _ _, _ =>
    ∀ vs info s v s', h.invoke fn vs info s = (.ok v, s') → v.ScoredIn S
  | _, _ => True

section
variable {S : Score → Prop}

theorem Value.scoredIn_ofTruth {b : Truth} : (Value.ofTruth b).ScoredIn S ↔ S b.score := by
  simp [Value.ScoredIn, Value.ofTruth, Item.ScoredIn]

theorem Score.Closed.ofBool (hS : Score.Closed S) (b : Bool) : (Value.ofBool b).ScoredIn S :=
  Value.scoredIn_ofTruth.mpr hS.zero

theorem Score.Closed.unscored (hS : Score.Closed S) {v : Value} (hv : v.Unscored) :
    v.ScoredIn S := by
  intro i hi
  cases i with
  | bool b =>
    have hb : b.score = .zero := hv _ hi
    simp only [Item.ScoredIn, hb, hS.zero]
  | _ => trivial

/-- The effective boolean value has no other scores. -/
theorem Score.Closed.ebv (hS : Score.Closed S) {v : Value} (hv : v.ScoredIn S) {span : Span}
    {b : Truth} (hb : v.ebv span = .ok b) : S b.score := by
  match v with
  | [] => cases hb; exact hS.zero
  | [i] =>
    have hi := hv i (List.mem_singleton_self i)
    cases i with
    | bool a => cases hb; exact hi
    | qname q => cases hb
    | _ => cases hb; exact hS.zero
  | _ :: _ :: _ => cases hb

/-- Whatever an expression yields has scores of a set only. -/
def Expr.YieldsScored (h : Host σ) (S : Score → Prop) (c : Context) (e : Expr) : Prop :=
  ∀ s v s', e.eval h c s = (.ok v, s') → v.ScoredIn S

theorem Score.Closed.answer (hS : Score.Closed S) {e : Expr} (he : e.YieldsScored h S c)
    {s s' : σ} {b : Truth} (hb : e.ebv h c s = (.ok b, s')) : S b.score := by
  obtain ⟨v, hv, hb⟩ := ebv_eq_ok.mp hb
  exact hS.ebv (he s v s' hv) hb

theorem evalAll_scored (hS : Score.Closed S) {es : List Expr}
    (hes : ∀ e ∈ es, e.YieldsScored h S c) {score : Score} (hscore : S score) {s s' : σ}
    {v : Value} (hv : evalAll h es c score s = (.ok v, s')) : v.ScoredIn S := by
  induction es generalizing score s with
  | nil =>
    cases hv
    refine Value.scoredIn_ofTruth.mpr ?_
    split
    · exact hS.zero
    · exact hscore
  | cons e es ih =>
    obtain ⟨he, hes⟩ := List.forall_mem_cons.mp hes
    rw [evalAll_steps] at hv
    obtain ⟨_, s₁, -, hv⟩ := onward_eq_ok.mp hv
    obtain ⟨b, s₂, hb, hv⟩ := onward_eq_ok.mp hv
    split at hv
    · refine ih hes ?_ hv
      split
      · exact hS.both hscore (hS.answer he hb)
      · exact hscore
    · cases hv; exact hS.ofBool false

theorem evalAny_scored (hS : Score.Closed S) {es : List Expr}
    (hes : ∀ e ∈ es, e.YieldsScored h S c) {score : Option Score}
    (hscore : ∀ r, score = some r → S r) {s s' : σ} {v : Value}
    (hv : evalAny h es c score s = (.ok v, s')) : v.ScoredIn S := by
  induction es generalizing score s with
  | nil =>
    cases hv
    refine Value.scoredIn_ofTruth.mpr ?_
    cases score with
    | none => exact hS.zero
    | some r => exact hscore r rfl
  | cons e es ih =>
    obtain ⟨he, hes⟩ := List.forall_mem_cons.mp hes
    rw [evalAny_steps] at hv
    obtain ⟨_, s₁, -, hv⟩ := onward_eq_ok.mp hv
    obtain ⟨b, s₂, hb, hv⟩ := onward_eq_ok.mp hv
    split at hv
    · split at hv
      · cases hv; exact hS.ofBool true
      · refine ih hes (fun r hr => ?_) hv
        cases hr
        refine hS.either ?_ (hS.answer he hb)
        cases score with
        | none => exact hS.zero
        | some r => exact hscore r rfl
    · exact ih hes hscore hv

theorem Connective.yieldsScored (hS : Score.Closed S) {k : Connective} {es : List Expr}
    (hes : ∀ e ∈ es, e.YieldsScored h S c) (span : Span) :
    (Expr.connective k es span).YieldsScored h S c := by
  intro s v s' hv
  cases k with
  | conjunction => exact evalAll_scored hS hes hS.zero hv
  | disjunction => exact evalAny_scored hS hes (by simp) hv

theorem Expr.Answers.yieldsScored (hS : Score.Closed S) {e : Expr} (he : e.Answers) :
    e.YieldsScored h S c := by
  intro s v s' hv
  obtain ⟨b, rfl⟩ := Answers.eval_ofBool hv he
  exact hS.ofBool b

/-- Where literals, bound values and results of functions have scores of a set only, so has what an
expression yields. -/
theorem Expr.eval_scored (hS : Score.Closed S) {e : Expr} (he : e.Throughout h (Scored h S) c) :
    e.YieldsScored h S c := by
  induction he with
  | connective _ _ ih => exact Connective.yieldsScored hS ih _
  | switch _ _ _ _ _ _ _ ihr ihd =>
    intro s v s' hv
    rcases eval_switch_eq_ok hv with ⟨s₁, hv⟩ | ⟨p, hp, s₁, s₂, hr⟩
    · exact ihd _ _ _ hv
    · exact ihr p hp _ _ _ hr
  | typeswitch _ _ _ _ ihcs =>
    intro s v s' hv
    obtain ⟨u, s₁, hu, p, hp, hadm, s₂, s₃, hr⟩ := eval_typeswitch_eq_ok hv
    exact ihcs _ _ _ hu p hp hadm _ _ _ hr
  | cast =>
    intro s v s' hv
    obtain ⟨u, -, hcast⟩ := Expr.eval_eq_ok.mp hv
    exact hS.unscored (Value.cast_unscored hcast)
  | @call fn _ _ _ _ _ ih =>
    intro s v s' hv
    obtain ⟨b, hb, rfl⟩ := eval_call_eq_ok.mp hv
    cases fn with
    | boolean => exact Value.scoredIn_ofTruth.mpr (hS.answer ih hb)
    | not => exact hS.ofBool _
  | compare => exact Answers.yieldsScored hS trivial
  | range => exact Answers.yieldsScored hS trivial
  | position => exact Answers.yieldsScored hS trivial
  | literal hn => intro s v s' hv; cases hv; exact hn
  | var hn => exact fun _ _ _ hv => hn _ (Expr.eval_eq_ok.mp hv).2
  | external hn =>
    intro s v s' hv
    obtain ⟨vs, s₁, -, hi⟩ := Expr.eval_eq_ok.mp hv
    exact hn vs _ s₁ v s' hi
  | failing => exact Answers.yieldsScored hS trivial

end

end
end QueryExpr
