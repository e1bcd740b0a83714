import QueryExpr.Proofs.Refinement

/-!
# QueryExpr.Proofs.Calls

The calls of external functions that an evaluation makes, in their order.

* `Host.recording` — a host that also writes down its calls.
* `Expr.calls`     — the calls of an evaluation, up to its first error.
* `Expr.eval_traces` — evaluation of an unscored expression by a steady host writes down these
  calls.
* `Improves`       — one expression yields what another yields, and makes no calls but those of the
  other, in the same order.
* `Improves.plug`  — it is enough to improve one part in its place.
* `Improves.agree` — bindings of a variable that is not referred to do not matter.
-/

namespace QueryExpr

/-- A call of an external function. -/
structure Call where
  name : String
  args : List Value
deriving DecidableEq

/-- A host whose state holds a log of all calls, the latest at the end. -/
structure Host.Logs {σ : Type} (h : Host σ) (log : σ → List Call) : Prop where
  poll : ∀ s, log (h.poll s).2 = log s
  invoke : ∀ fn vs info s, log (h.invoke fn vs info s).2 = log s ++ [⟨fn.name, vs⟩]

/-- A host that also writes down all calls. -/
def Host.recording {σ : Type} (h : Host σ) : Host (σ × List Call) where
  poll s := ((h.poll s.1).1, (h.poll s.1).2, s.2)
  invoke fn vs info s :=
    ((h.invoke fn vs info s.1).1, (h.invoke fn vs info s.1).2, s.2 ++ [⟨fn.name, vs⟩])

theorem Host.recording_logs {σ : Type} (h : Host σ) : h.recording.Logs (·.2) where
  poll _ := rfl
  invoke _ _ _ _ := rfl

theorem Host.Steady.recording {σ : Type} {h : Host σ} {L : Library} (hh : h.Steady L) :
    h.recording.Steady L where
  poll s := hh.poll s.1
  invoke fn vs info s := hh.invoke fn vs info s.1

/-! ## Calls -/

mutual

/-- The calls that evaluation in a context makes before it yields a value or fails. -/
def Expr.calls (L : Library) : Expr → Context → List Call
  | .connective k es _, c => operandCalls L k es c
  | .switch e cs d _, c =>
    e.calls L c ++ ((e.value? L c).bind Value.item?).elim [] fun i =>
      caseCalls L i (d.calls L c) cs c
  | .typeswitch e cs _, c => e.calls L c ++ (e.value? L c).elim [] fun v => typeCaseCalls L v cs c
  | .cast e _ _, c => e.calls L c
  | .call _ e _, c => e.calls L c
  | .compare _ l r _, c => l.calls L c ++ (l.value? L c).elim [] fun _ => r.calls L c
  | .range _ e _, c => e.calls L c
  | .position _ _ _, _ => []
  | .literal _, _ => []
  | .var _ _, _ => []
  | .external fn es _ _, c =>
    argCalls L es c ++ (argValues? L es c).elim [] fun vs => [⟨fn.name, vs⟩]
  | .failing _ _ _, _ => []

/-- The calls of the operands of a connective, up to the first one that decides it. -/
def operandCalls (L : Library) (k : Connective) : List Expr → Context → List Call
  | [], _ => []
  | e :: es, c =>
    e.calls L c ++ (e.test? L c).elim [] fun b =>
      if b = k.absorbing then [] else operandCalls L k es c

/-- The calls of the case values up to the first one that matches, and those of its result;
otherwise those of the default. -/
def caseCalls (L : Library) (i : Option Item) (default : List Call) :
    List (Expr × Expr) → Context → List Call
  | [], _ => default
  | (v, r) :: cs, c =>
    v.calls L c ++ ((v.value? L c).bind Value.item?).elim [] fun j =>
      if matchesCase i j then r.calls L c else caseCalls L i default cs c

/-- The calls of the first case that admits the value of the operand. -/
def typeCaseCalls (L : Library) (v : Value) : List (CaseHead × Expr) → Context → List Call
  | [], _ => []
  | (head, r) :: cs, c =>
    if head.admits v then r.calls L (head.bind v c) else typeCaseCalls L v cs c

def argCalls (L : Library) : List Expr → Context → List Call
  | [], _ => []
  | e :: es, c => e.calls L c ++ (e.value? L c).elim [] fun _ => argCalls L es c

end

/-! ## Evaluation -/

section
variable {σ : Type} {h : Host σ} {log : σ → List Call} {V : Vocabulary} {L : Library}

theorem Host.Logs.check (hl : h.Logs log) (hh : h.Steady L) (s : σ) :
    ∃ s', h.check s = (.ok (), s') ∧ log s' = log s := by
  obtain ⟨s', hs⟩ := hh.check s
  refine ⟨s', hs, ?_⟩
  rw [← hl.poll s]
  unfold Host.check at hs
  split at hs
  · cases hs
  · rename_i hp; cases hs; rw [hp]

/-- A step yields what it should, and the log is what it should be. -/
structure Traced {α : Type} (log : σ → List Call) (x : Except EvalError α × σ) (o : Option α)
    (t : List Call) : Prop where
  value : x.1.toOption = o
  log : log x.2 = t

theorem Traced.cases {α : Type} {x : Except EvalError α × σ} {o : Option α} {t : List Call}
    (hx : Traced log x o t) :
    (∃ e s, x = (.error e, s) ∧ o = none ∧ log s = t) ∨
      ∃ v s, x = (.ok v, s) ∧ o = some v ∧ log s = t := by
  obtain ⟨r, s⟩ := x
  obtain ⟨hv, rfl⟩ := hx
  cases r with
  | error e => exact .inl ⟨e, s, rfl, hv.symm, rfl⟩
  | ok v => exact .inr ⟨v, s, rfl, hv.symm, rfl⟩

/-- A row of steps logs what its first step logs, and then what the others do. -/
theorem Traced.onward {α β : Type} {x : Except EvalError α × σ} {o : Option α} {t : List Call}
    (hx : Traced log x o t) {f : α → σ → Except EvalError β × σ} {u : α → List Call}
    (hf : ∀ a s, o = some a → log (f a s).2 = log s ++ u a) :
    log (QueryExpr.onward x f).2 = t ++ o.elim [] u := by
  rcases hx.cases with ⟨e, s, rfl, rfl, rfl⟩ | ⟨a, s, rfl, rfl, rfl⟩
  · exact (List.append_nil _).symm
  · exact hf a s rfl

/-- A test logs nothing. -/
theorem Traced.test {α β : Type} {x : Except EvalError α × σ} {o : Option α} {t : List Call}
    (hx : Traced log x o t) {f : α → Except EvalError β} {g : α → Option β}
    (hf : ∀ a, (f a).toOption = g a) :
    Traced log (QueryExpr.onward x fun a s => (f a, s)) (o.bind g) t := by
  rcases hx.cases with ⟨e, s, rfl, rfl, rfl⟩ | ⟨a, s, rfl, rfl, rfl⟩
  · exact ⟨rfl, rfl⟩
  · exact ⟨hf a, rfl⟩

/-- Evaluation yields the value of an expression and logs its calls. -/
def Expr.Traces (h : Host σ) (log : σ → List Call) (L : Library) (e : Expr) (c : Context) : Prop :=
  ∀ s, Traced log (e.eval h c s) (e.value? L c) (log s ++ e.calls L c)

section
variable {c : Context} {e : Expr} {es : List Expr}

/-- Where a truth is asked for. -/
theorem Expr.Traces.onward_ebv {β : Type} (he : e.Traces h log L c)
    {f : Truth → σ → Except EvalError β × σ} {u : Bool → List Call}
    (hf : ∀ v b s, e.value? L c = some v → v.ebv e.span = .ok b →
      log (f b s).2 = log s ++ u b.value) (s : σ) :
    log (onward (e.ebv h c s) f).2 = log s ++ e.calls L c ++ (e.test? L c).elim [] u := by
  rw [ebv_steps, onward_assoc, Expr.test?]
  rcases (he s).cases with ⟨t, s₁, hx, ho, hlog⟩ | ⟨v, s₁, hx, ho, hlog⟩
  · rw [hx, ho, ← hlog]
    exact (List.append_nil _).symm
  · rw [hx, ho, ← hlog]
    rcases v.ebv_cases e.span with ⟨t, hb, ht⟩ | ⟨b, hb, ht⟩
    · rw [onward_ok, hb, Option.bind_some, ht]
      exact (List.append_nil _).symm
    · rw [onward_ok, hb, Option.bind_some, ht]
      exact hf v b s₁ ho hb

theorem evalAll_log (hl : h.Logs log) (hh : h.Steady L) (hes : ∀ e ∈ es, e.Traces h log L c)
    (score : Score) (s : σ) :
    log (evalAll h es c score s).2 = log s ++ operandCalls L .conjunction es c := by
  induction es generalizing score s with
  | nil => exact (List.append_nil _).symm
  | cons e es ih =>
    obtain ⟨he, hes⟩ := List.forall_mem_cons.mp hes
    obtain ⟨s', hs, hs'⟩ := hl.check hh s
    rw [evalAll_steps, hs, onward_ok, operandCalls, ← hs', ← List.append_assoc]
    refine he.onward_ebv (fun v b s _ _ => ?_) s'
    cases hv : b.value with
    | false => exact (List.append_nil _).symm
    | true => exact ih hes _ s

theorem evalAny_log (hl : h.Logs log) (hh : h.Steady L) (hes : ∀ e ∈ es, e.Traces h log L c)
    (hp : ∀ e ∈ es, ∀ v, e.value? L c = some v → v.Unscored) (score : Option Score) (s : σ) :
    log (evalAny h es c score s).2 = log s ++ operandCalls L .disjunction es c := by
  induction es generalizing score s with
  | nil => exact (List.append_nil _).symm
  | cons e es ih =>
    obtain ⟨he, hes⟩ := List.forall_mem_cons.mp hes
    obtain ⟨hpe, hp⟩ := List.forall_mem_cons.mp hp
    obtain ⟨s', hs, hs'⟩ := hl.check hh s
    rw [evalAny_steps, hs, onward_ok, operandCalls, ← hs', ← List.append_assoc]
    refine he.onward_ebv (fun v b s hv hb => ?_) s'
    rw [(hpe v hv).ebv hb]
    cases b.value with
    | false => exact ih hes hp _ s
    | true => exact (List.append_nil _).symm

theorem evalSwitch_log (hl : h.Logs log) (hh : h.Steady L) {i : Option Item} {span : Span}
    {d : Expr} {cs : List (Expr × Expr)}
    (hcs : ∀ p ∈ cs, p.1.Traces h log L c ∧ p.2.Traces h log L c) (hd : d.Traces h log L c)
    (s : σ) :
    log (onward (evalSwitch h i span cs c s) fun o s =>
      o.elim (d.eval h c s) fun w => (.ok w, s)).2 =
        log s ++ caseCalls L i (d.calls L c) cs c := by
  induction cs generalizing s with
  | nil => exact (hd s).log
  | cons p cs ih =>
    obtain ⟨hp, hcs⟩ := List.forall_mem_cons.mp hcs
    obtain ⟨s', hs, hs'⟩ := hl.check hh s
    rw [evalSwitch_steps, hs, onward_ok, caseCalls, ← hs', ← List.append_assoc, ← onward_assoc,
      onward_assoc]
    refine ((hp.1 s').test fun v => v.single_toOption span).onward fun j s _ => ?_
    split
    · rw [onward_assoc, ← (hp.2 s).log]
      rcases p.2.eval h c s with ⟨_ | w, s⟩ <;> rfl
    · exact ih hcs s

theorem evalTypeswitch_log (hl : h.Logs log) (hh : h.Steady L) {v : Value} {span : Span}
    {cs : List (CaseHead × Expr)} (hcs : ∀ p ∈ cs, p.2.Traces h log L (p.1.bind v c)) (s : σ) :
    log (evalTypeswitch h v span cs c s).2 = log s ++ typeCaseCalls L v cs c := by
  induction cs generalizing s with
  | nil => exact (List.append_nil _).symm
  | cons p cs ih =>
    obtain ⟨hp, hcs⟩ := List.forall_mem_cons.mp hcs
    obtain ⟨s', hs, hs'⟩ := hl.check hh s
    rw [evalTypeswitch_steps, hs, onward_ok, typeCaseCalls, ← hs']
    split
    · exact (hp s').log
    · exact ih hcs s'

theorem evalArgs_traced (hl : h.Logs log) (hh : h.Steady L) (hes : ∀ e ∈ es, e.Traces h log L c)
    (s : σ) :
    Traced log (evalArgs h es c s) (argValues? L es c) (log s ++ argCalls L es c) := by
  refine ⟨evalArgs_eq hh (fun e hm s => (hes e hm s).value) s, ?_⟩
  induction es generalizing s with
  | nil => exact (List.append_nil _).symm
  | cons e es ih =>
    obtain ⟨he, hes⟩ := List.forall_mem_cons.mp hes
    obtain ⟨s', hs, hs'⟩ := hl.check hh s
    rw [evalArgs_steps, hs, onward_ok, argCalls, ← hs', ← List.append_assoc]
    refine (he s').onward fun v s _ => ?_
    rw [← ih hes s]
    rcases evalArgs h es c s with ⟨_ | vs, s⟩ <;> rfl

end

/-- Evaluation of an unscored expression by a steady host yields the value of the expression and
logs its calls. -/
theorem Expr.eval_traces (hl : h.Logs log) (hh : h.Steady L) (hV : V.YieldsOnly L Value.Unscored)
    {e : Expr} (he : e.Over V) {c : Context} (hc : c.Only Value.Unscored) :
    e.Traces h log L c := by
  have traces {e : Expr} (he : e.Over V) {c : Context} (hc : c.Only Value.Unscored)
      (hlog : ∀ s, log (e.eval h c s).2 = log s ++ e.calls L c) : e.Traces h log L c :=
    fun s => ⟨eval_unscored hh hV he hc s, hlog s⟩
  induction e generalizing c with
  | connective k es span ih =>
    obtain ⟨-, hes⟩ := Expr.every_connective.mp he
    refine traces he hc fun s => ?_
    have hes' : ∀ e ∈ es, e.Traces h log L c := fun e hm => ih e hm (hes e hm) hc
    cases k with
    | conjunction => exact evalAll_log hl hh hes' _ s
    | disjunction =>
      exact evalAny_log hl hh hes' (fun e hm v hv => value?_only hV (hes e hm) hc hv) _ s
  | switch e cs d span ihe ihcs ihd =>
    refine traces he hc fun s => ?_
    obtain ⟨-, he, hcs, hd⟩ := Expr.every_switch.mp he
    rw [eval_switch_steps, Expr.calls, ← onward_assoc, ← List.append_assoc]
    refine ((ihe he hc s).test fun v => v.single_toOption span).onward fun i s _ => ?_
    refine evalSwitch_log hl hh (fun p hp => ?_) (ihd hd hc) s
    exact ⟨(ihcs p hp).1 (hcs p hp).1 hc, (ihcs p hp).2 (hcs p hp).2 hc⟩
  | typeswitch e cs span ihe ihcs =>
    refine traces he hc fun s => ?_
    obtain ⟨-, he, hcs⟩ := Expr.every_typeswitch.mp he
    rw [eval_typeswitch_steps, Expr.calls, ← List.append_assoc]
    refine (ihe he hc s).onward fun v s hv => evalTypeswitch_log hl hh (fun p hp => ?_) s
    exact ihcs p hp (hcs p hp) (hc.bindCase (value?_only hV he hc hv) p.1)
  | cast e t span ih =>
    refine traces he hc fun s => ?_
    rw [eval_cast_steps]
    exact ((ih (Expr.every_cast.mp he).2 hc s).test fun _ => rfl).log
  | call fn e span ih =>
    refine traces he hc fun s => ?_
    have he := ih (Expr.every_call.mp he).2 hc
    rw [eval_call_steps, Expr.calls, ebv_steps]
    exact (((he s).test fun v => rfl).test fun _ => rfl).log
  | compare op l r span ihl ihr =>
    refine traces he hc fun s => ?_
    obtain ⟨-, hl', hr⟩ := Expr.every_compare.mp he
    rw [eval_compare_steps, Expr.calls, ← List.append_assoc]
    exact (ihl hl' hc s).onward fun v s _ => ((ihr hr hc s).test fun _ => rfl).log
  | range b e span ih =>
    refine traces he hc fun s => ?_
    rw [eval_range_steps]
    exact ((ih (Expr.every_range.mp he).2 hc s).test fun _ => rfl).log
  | position a b span =>
    refine traces he hc fun s => ?_
    rw [Expr.eval, Expr.calls, List.append_nil]
    split <;> rfl
  | literal w => exact traces he hc fun s => by simp [Expr.eval, Expr.calls]
  | var x span =>
    refine traces he hc fun s => ?_
    rw [Expr.eval, Expr.calls, List.append_nil]
    split <;> rfl
  | external fn es tail span ih =>
    refine traces he hc fun s => ?_
    obtain ⟨-, hes⟩ := Expr.every_external.mp he
    rw [eval_external_steps, Expr.calls, ← List.append_assoc]
    refine (evalArgs_traced hl hh (fun e hm => ih e hm (hes e hm) hc) s).onward fun vs s _ => ?_
    exact hl.invoke fn vs _ s
  | failing t type span => exact traces he hc fun s => by simp [Expr.eval, Expr.calls]

end

/-! ## Sparing calls -/

/-- Where one expression yields something, the other one makes no calls but those of the first, in
the same order. -/
def Spares (L : Library) (e : Expr) (c : Context) (d : Expr) (c' : Context) : Prop :=
  ∀ v, e.value? L c = some v → (d.calls L c').Sublist (e.calls L c)

/-- What one expression yields, the other one yields, too, with no other calls. -/
structure Improves (L : Library) (e : Expr) (c : Context) (d : Expr) (c' : Context) : Prop where
  refines : Refines L e c d c'
  spares : Spares L e c d c'

section
variable {L : Library} {c c' : Context}

theorem Improves.refl (e : Expr) : Improves L e c e c := ⟨.refl e, fun _ _ => .refl _⟩

/-! ## Lists of parts -/

theorem operandCalls_spares {k : Connective} {es ds : List Expr}
    (h : List.Forall₂ (fun e d => Improves L e c d c') es ds) {b : Bool}
    (hb : truth? L k es c = some b) :
    (operandCalls L k ds c').Sublist (operandCalls L k es c) := by
  induction h with
  | nil => exact .refl _
  | cons he _ ih =>
    rw [truth?] at hb
    obtain ⟨a, ha, hb⟩ := Option.bind_eq_some_iff.mp hb
    obtain ⟨v, hv, ha⟩ := Option.bind_eq_some_iff.mp ha
    rw [operandCalls, operandCalls, Expr.test?, Expr.test?, hv, he.refines v hv, Option.bind_some,
      ha, Option.elim_some, Option.elim_some]
    refine (he.spares v hv).append ?_
    split at hb
    · rename_i hk; rw [if_pos hk, if_pos hk]
    · rename_i hk; rw [if_neg hk, if_neg hk]; exact ih hb

theorem argCalls_spares {es ds : List Expr}
    (h : List.Forall₂ (fun e d => Improves L e c d c') es ds) {vs : List Value}
    (hvs : argValues? L es c = some vs) : (argCalls L ds c').Sublist (argCalls L es c) := by
  induction h generalizing vs with
  | nil => exact .refl _
  | cons he _ ih =>
    rw [argValues?] at hvs
    obtain ⟨v, hv, hvs⟩ := Option.bind_eq_some_iff.mp hvs
    obtain ⟨ws, hws, rfl⟩ := Option.map_eq_some_iff.mp hvs
    rw [argCalls, argCalls, hv, he.refines v hv, Option.elim_some, Option.elim_some]
    exact (he.spares v hv).append (ih hws)

theorem caseCalls_spares {i : Option Item} {o : Option Value} {t t' : List Call}
    {cs ds : List (Expr × Expr)} (ho : ∀ v, o = some v → t'.Sublist t)
    (h : List.Forall₂ (fun p q => Improves L p.1 c q.1 c' ∧ Improves L p.2 c q.2 c') cs ds)
    {v : Value} (hv : caseValue? L i o cs c = some v) :
    (caseCalls L i t' ds c').Sublist (caseCalls L i t cs c) := by
  induction h with
  | nil => exact ho v hv
  | cons hp _ ih =>
    rw [caseValue?] at hv
    obtain ⟨j, hj, hv⟩ := Option.bind_eq_some_iff.mp hv
    obtain ⟨w, hw, hj⟩ := Option.bind_eq_some_iff.mp hj
    rw [caseCalls, caseCalls, hw, hp.1.refines w hw, Option.bind_some, hj, Option.elim_some,
      Option.elim_some]
    refine (hp.1.spares w hw).append ?_
    split at hv
    · rename_i hm; rw [if_pos hm, if_pos hm]; exact hp.2.spares v hv
    · rename_i hm; rw [if_neg hm, if_neg hm]; exact ih hv

theorem typeCaseCalls_spares {v : Value} {cs ds : List (CaseHead × Expr)}
    (h : List.Forall₂ (fun p q => p.1.admits v = q.1.admits v ∧ (p.1.admits v = true →
      Improves L p.2 (p.1.bind v c) q.2 (q.1.bind v c'))) cs ds)
    {w : Value} (hw : typeCaseValue? L v cs c = some w) :
    (typeCaseCalls L v ds c').Sublist (typeCaseCalls L v cs c) := by
  induction h with
  | nil => exact .refl _
  | cons hp _ ih =>
    rw [typeCaseValue?] at hw
    rw [typeCaseCalls, typeCaseCalls]
    split at hw
    · rename_i hadm; rw [if_pos hadm, if_pos (hp.1 ▸ hadm)]; exact (hp.2 hadm).spares w hw
    · rename_i hadm; rw [if_neg hadm, if_neg (hp.1 ▸ hadm)]; exact ih hw

/-! ## Nodes -/

namespace Improves

theorem connective {k : Connective} {es ds : List Expr} {s s' : Span}
    (h : List.Forall₂ (fun e d => Improves L e c d c') es ds) :
    Improves L (.connective k es s) c (.connective k ds s') c' := by
  refine ⟨.connective (h.imp fun _ _ h => h.refines), fun v hv => ?_⟩
  obtain ⟨b, hb, -⟩ := Option.map_eq_some_iff.mp hv
  exact operandCalls_spares h hb

theorem switch {e d o o' : Expr} {cs ds : List (Expr × Expr)} {s s' : Span}
    (he : Improves L e c d c')
    (hcs : List.Forall₂ (fun p q => Improves L p.1 c q.1 c' ∧ Improves L p.2 c q.2 c') cs ds)
    (ho : Improves L o c o' c') : Improves L (.switch e cs o s) c (.switch d ds o' s') c' := by
  refine ⟨.switch he.refines (hcs.imp fun _ _ h => ⟨h.1.refines, h.2.refines⟩) ho.refines,
    fun v hv => ?_⟩
  rw [Expr.value?] at hv
  obtain ⟨w, hw, hv⟩ := Option.bind_eq_some_iff.mp hv
  obtain ⟨i, hi, hv⟩ := Option.bind_eq_some_iff.mp hv
  rw [Expr.calls, Expr.calls, hw, he.refines w hw, Option.bind_some, hi, Option.elim_some,
    Option.elim_some]
  exact (he.spares w hw).append (caseCalls_spares ho.spares hcs hv)

theorem typeswitch {e d : Expr} {cs ds : List (CaseHead × Expr)} {s s' : Span}
    (he : Improves L e c d c')
    (hcs : ∀ v, e.value? L c = some v → List.Forall₂ (fun p q => p.1.admits v = q.1.admits v ∧
      (p.1.admits v = true → Improves L p.2 (p.1.bind v c) q.2 (q.1.bind v c'))) cs ds) :
    Improves L (.typeswitch e cs s) c (.typeswitch d ds s') c' := by
  refine ⟨.typeswitch he.refines fun v hv => (hcs v hv).imp fun _ _ h =>
    ⟨h.1, fun hadm => (h.2 hadm).refines⟩, fun v hv => ?_⟩
  rw [Expr.value?] at hv
  obtain ⟨w, hw, hv⟩ := Option.bind_eq_some_iff.mp hv
  rw [Expr.calls, Expr.calls, hw, he.refines w hw, Option.elim_some, Option.elim_some]
  exact (he.spares w hw).append (typeCaseCalls_spares (hcs w hw) hv)

theorem cast {e d : Expr} {t : SeqType} {s s' : Span} (he : Improves L e c d c') :
    Improves L (.cast e t s) c (.cast d t s') c' := by
  refine ⟨.cast he.refines, fun v hv => ?_⟩
  obtain ⟨w, hw, -⟩ := Option.bind_eq_some_iff.mp hv
  exact he.spares w hw

theorem call {fn : Builtin} {e d : Expr} {s s' : Span} (he : Improves L e c d c') :
    Improves L (.call fn e s) c (.call fn d s') c' := by
  refine ⟨.call he.refines, fun v hv => ?_⟩
  obtain ⟨w, hw, -⟩ := Option.bind_eq_some_iff.mp hv
  exact he.spares w hw

theorem compare {op : CompareOp} {l l' r r' : Expr} {s s' : Span} (hl : Improves L l c l' c')
    (hr : Improves L r c r' c') :
    Improves L (.compare op l r s) c (.compare op l' r' s') c' := by
  refine ⟨.compare hl.refines hr.refines, fun v hv => ?_⟩
  obtain ⟨w, hw, hv⟩ := Option.bind_eq_some_iff.mp hv
  obtain ⟨u, hu, -⟩ := Option.bind_eq_some_iff.mp hv
  rw [Expr.calls, Expr.calls, hw, hl.refines w hw, Option.elim_some, Option.elim_some]
  exact (hl.spares w hw).append (hr.spares u hu)

theorem range {b b' : Bounds} {e d : Expr} {s s' : Span} (hb : ∀ v, b.test? v = b'.test? v)
    (he : Improves L e c d c') : Improves L (.range b e s) c (.range b' d s') c' := by
  refine ⟨.range hb he.refines, fun v hv => ?_⟩
  obtain ⟨w, hw, -⟩ := Option.bind_eq_some_iff.mp hv
  exact he.spares w hw

theorem external {fn fn' : ExternalFn} {es ds : List Expr} {t t' : Bool} {s s' : Span}
    (hfn : fn.name = fn'.name) (h : List.Forall₂ (fun e d => Improves L e c d c') es ds) :
    Improves L (.external fn es t s) c (.external fn' ds t' s') c' := by
  have hr := h.imp fun _ _ h => h.refines
  refine ⟨.external hfn hr, fun v hv => ?_⟩
  obtain ⟨vs, hvs, -⟩ := Option.bind_eq_some_iff.mp hv
  rw [Expr.calls, Expr.calls, hvs, argValues?_refines hr hvs, hfn]
  exact (argCalls_spares h hvs).append (.refl _)

/-- Every kind of node improves if its parts do. -/
theorem compatible (L : Library) :
    Compatible (fun _ => Improves L) fun e c v => e.value? L c = some v where
  refl := refl _
  connective := connective
  switch := switch
  typeswitch := typeswitch
  cast := cast
  boolean := call
  not := call
  compare := compare
  range := range
  position hf := ⟨(Refines.compatible L).position (m := false) hf, fun _ _ => .refl _⟩
  literal := ⟨(Refines.compatible L).literal (m := false), fun _ _ => .refl _⟩
  var hx := ⟨(Refines.compatible L).var (m := false) hx, fun _ _ => .refl _⟩
  external := external
  failing := ⟨(Refines.compatible L).failing (m := false), fun _ _ => .refl _⟩

/-- To improve a part is to improve the node. -/
theorem plug {F : Frame} {e d : Expr} (h : ∀ c', F.Enters L c c' → Improves L e c' d c') :
    Improves L (F.plug e) c (F.plug d) c := by
  refine (compatible L).plug (m := false) fun c' hc' => h c' ?_
  cases F <;> exact hc'

/-- What an expression yields, and with which calls, does not depend on a variable that it does not
refer to. -/
theorem agree {x : Var} {e : Expr} (he : e.Avoids x) (h : c.AgreeOff x c') :
    Improves L e c e c' :=
  (compatible L).agree (m := false) he h

end Improves

end

end QueryExpr
