import QueryExpr.Proofs.Plain
import QueryExpr.Proofs.Soundness

/-!
# QueryExpr.Proofs.Meaning

What an expression yields, as a function of the context alone.

* `Library`       — what external functions yield, by name and argument values.
* `Host.Steady`   — a host that does not cancel, and whose functions are those of a library.
* `Expr.value?`   — the value of an expression; `none` stands for every error.
* `Expr.value?_only` — what all literals, results and bound values have, all values have.
* `Expr.eval_unscored` — evaluation of an unscored expression by a steady host is `value?`, whatever
  the state of the host is; `Expr.eval_eq` — the same for plain expressions.
-/

namespace QueryExpr

/-- What external functions yield, by name. -/
abbrev Library := String → List Value → Option Value

/-- A host that is not cancelled and whose functions depend on their names and arguments only. -/
structure Host.Steady {σ : Type} (h : Host σ) (L : Library) : Prop where
  poll : ∀ s, (h.poll s).1 = false
  invoke : ∀ fn vs info s, (h.invoke fn vs info s).1.toOption = L fn.name vs

/-- The answer of a built-in function. -/
def Builtin.answer : Builtin → Bool → Bool
  | .boolean, b => b
  | .not, b => !b

mutual

/-- The value of an expression in a context, if there is one. -/
def Expr.value? (L : Library) : Expr → Context → Option Value
  | .connective k es _, c => (truth? L k es c).map .ofBool
  | .switch e cs d _, c =>
    (e.value? L c).bind fun v => v.item?.bind fun i => caseValue? L i (d.value? L c) cs c
  | .typeswitch e cs _, c => (e.value? L c).bind fun v => typeCaseValue? L v cs c
  | .cast e t _, c => (e.value? L c).bind fun v => v.cast? t
  | .call fn e _, c =>
    (e.value? L c).bind fun v => v.test?.map fun b => .ofBool (fn.answer b)
  | .compare op l r _, c =>
    (l.value? L c).bind fun v => (r.value? L c).bind fun w => (v.compare? op w).map .ofBool
  | .range b e _, c => (e.value? L c).bind fun v => (b.test? v).map .ofBool
  | .position min max _, c =>
    c.focus.map fun f => .ofBool (min ≤ f.position && f.position ≤ max)
  | .literal v, _ => some v
  | .var x _, c => c.lookup x.id
  | .external fn es _ _, c => (argValues? L es c).bind (L fn.name)
  | .failing _ _ _, _ => none

/-- The truth value of a connective: that of the first operand that decides it. -/
def truth? (L : Library) (k : Connective) : List Expr → Context → Option Bool
  | [], _ => some !k.absorbing
  | e :: es, c =>
    ((e.value? L c).bind Value.test?).bind fun b =>
      if b = k.absorbing then some b else truth? L k es c

/-- The value of the first switch case that matches, and otherwise that of the default. -/
def caseValue? (L : Library) (i : Option Item) (default : Option Value) :
    List (Expr × Expr) → Context → Option Value
  | [], _ => default
  | (v, r) :: cs, c =>
    ((v.value? L c).bind Value.item?).bind fun j =>
      if matchesCase i j then r.value? L c else caseValue? L i default cs c

/-- The value of the first case that admits the value of the operand. -/
def typeCaseValue? (L : Library) (v : Value) : List (CaseHead × Expr) → Context → Option Value
  | [], _ => none
  | (head, r) :: cs, c =>
    if head.admits v then r.value? L (head.bind v c) else typeCaseValue? L v cs c

def argValues? (L : Library) : List Expr → Context → Option (List Value)
  | [], _ => some []
  | e :: es, c => (e.value? L c).bind fun v => (argValues? L es c).map (v :: ·)

end

/-- The truth of an expression. -/
def Expr.test? (L : Library) (e : Expr) (c : Context) : Option Bool :=
  (e.value? L c).bind Value.test?

/-! ## Values of one kind -/

/-- What a vocabulary must promise for all values to have a property. -/
structure Vocabulary.YieldsOnly (V : Vocabulary) (L : Library) (P : Value → Prop) : Prop where
  value : ∀ {v}, V.value v → P v
  fn : ∀ {f vs v}, V.fn f → L f.name vs = some v → P v
  cast : ∀ {t} {v w : Value}, V.target t → v.cast? t = some w → P w
  ofBool : ∀ b, P (.ofBool b)

/-- All bound values have a property. -/
def Context.Only (P : Value → Prop) (c : Context) : Prop := ∀ id v, c.lookup id = some v → P v

theorem Context.Only.bind {P : Value → Prop} {c : Context} (hc : c.Only P) (id : Nat) {v : Value}
    (hv : P v) : (c.bind id v).Only P := by
  intro id' w hw
  rw [Context.lookup_bind] at hw
  split at hw
  · cases hw; exact hv
  · exact hc id' w hw

theorem Context.Only.bindCase {P : Value → Prop} {c : Context} (hc : c.Only P) {v : Value}
    (hv : P v) (head : CaseHead) : (head.bind v c).Only P := by
  unfold CaseHead.bind
  split
  · exact hc
  · exact hc.bind _ hv

/-- What a vocabulary must promise for all values to be plain. -/
structure Vocabulary.YieldsPlain (V : Vocabulary) (L : Library) : Prop where
  value : ∀ {v}, V.value v → v.Plain
  fn : ∀ {f vs v}, V.fn f → L f.name vs = some v → v.Plain
  target : ∀ {t}, V.target t → t.atom ≠ .float ∧ t.atom ≠ .double

/-- All bound values are plain. -/
def Context.Plain (c : Context) : Prop := ∀ id v, c.lookup id = some v → v.Plain

theorem Vocabulary.YieldsPlain.only {V : Vocabulary} {L : Library} (hV : V.YieldsPlain L) :
    V.YieldsOnly L Value.Plain where
  value := hV.value
  fn := hV.fn
  cast ht hw := Value.cast_plain (toOption_eq_some_iff.mp hw) (hV.target ht).1 (hV.target ht).2
  ofBool := Value.plain_ofBool

theorem Vocabulary.YieldsPlain.unscored {V : Vocabulary} {L : Library} (hV : V.YieldsPlain L) :
    V.YieldsOnly L Value.Unscored where
  value hv := (hV.value hv).unscored
  fn hf hv := (hV.fn hf hv).unscored
  cast _ hw := Value.cast_unscored (toOption_eq_some_iff.mp hw)
  ofBool := Value.unscored_ofBool

section
variable {V : Vocabulary} {L : Library}

theorem caseValue?_result {i : Option Item} {o : Option Value} {cs : List (Expr × Expr)}
    {c : Context} {w : Value} (h : caseValue? L i o cs c = some w) :
    o = some w ∨ ∃ p ∈ cs, p.2.value? L c = some w := by
  induction cs with
  | nil => exact .inl h
  | cons p cs ih =>
    obtain ⟨j, _, h⟩ := Option.bind_eq_some_iff.mp h
    split at h
    · exact .inr ⟨p, List.mem_cons_self .., h⟩
    · rcases ih h with h | ⟨q, hq, h⟩
      · exact .inl h
      · exact .inr ⟨q, List.mem_cons_of_mem _ hq, h⟩

theorem typeCaseValue?_result {v w : Value} {cs : List (CaseHead × Expr)} {c : Context}
    (h : typeCaseValue? L v cs c = some w) :
    ∃ p ∈ cs, p.1.admits v = true ∧ p.2.value? L (p.1.bind v c) = some w := by
  induction cs with
  | nil => cases h
  | cons p cs ih =>
    rw [typeCaseValue?] at h
    split at h
    · rename_i hadm; exact ⟨p, List.mem_cons_self .., hadm, h⟩
    · obtain ⟨q, hq, h⟩ := ih h
      exact ⟨q, List.mem_cons_of_mem _ hq, h⟩

/-- What literals, results of functions, casts and bound values have, all values have. -/
theorem Expr.value?_only {P : Value → Prop} (hV : V.YieldsOnly L P) {e : Expr} (he : e.Over V)
    {c : Context} (hc : c.Only P) {v : Value} (hv : e.value? L c = some v) : P v := by
  induction e generalizing c v with
  | connective k es span =>
    obtain ⟨b, _, rfl⟩ := Option.map_eq_some_iff.mp hv
    exact hV.ofBool b
  | switch e cs d span _ ihcs ihd =>
    obtain ⟨-, -, hcs, hd⟩ := Expr.every_switch.mp he
    obtain ⟨w, -, hv⟩ := Option.bind_eq_some_iff.mp hv
    obtain ⟨i, -, hv⟩ := Option.bind_eq_some_iff.mp hv
    rcases caseValue?_result hv with hv | ⟨p, hp, hv⟩
    · exact ihd hd hc hv
    · exact (ihcs p hp).2 (hcs p hp).2 hc hv
  | typeswitch e cs span ihe ihcs =>
    obtain ⟨-, he, hcs⟩ := Expr.every_typeswitch.mp he
    obtain ⟨w, hw, hv⟩ := Option.bind_eq_some_iff.mp hv
    obtain ⟨p, hp, _, hv⟩ := typeCaseValue?_result hv
    exact ihcs p hp (hcs p hp) (hc.bindCase (ihe he hc hw) p.1) hv
  | cast e t span _ =>
    obtain ⟨w, -, hv⟩ := Option.bind_eq_some_iff.mp hv
    exact hV.cast (Expr.every_cast.mp he).1 hv
  | call fn e span _ =>
    obtain ⟨w, -, hv⟩ := Option.bind_eq_some_iff.mp hv
    obtain ⟨b, _, rfl⟩ := Option.map_eq_some_iff.mp hv
    exact hV.ofBool _
  | compare op l r span _ _ =>
    obtain ⟨w, -, hv⟩ := Option.bind_eq_some_iff.mp hv
    obtain ⟨u, -, hv⟩ := Option.bind_eq_some_iff.mp hv
    obtain ⟨b, _, rfl⟩ := Option.map_eq_some_iff.mp hv
    exact hV.ofBool b
  | range b e span _ =>
    obtain ⟨w, -, hv⟩ := Option.bind_eq_some_iff.mp hv
    obtain ⟨b, _, rfl⟩ := Option.map_eq_some_iff.mp hv
    exact hV.ofBool b
  | position a b span =>
    obtain ⟨f, _, rfl⟩ := Option.map_eq_some_iff.mp hv
    exact hV.ofBool _
  | literal w => cases hv; exact hV.value (Expr.every_literal.mp he)
  | var x span => exact hc _ _ hv
  | external fn es tail span _ =>
    obtain ⟨vs, -, hv⟩ := Option.bind_eq_some_iff.mp hv
    exact hV.fn (Expr.every_external.mp he).1 hv
  | failing t type span => cases hv

/-- What plain expressions yield is plain. -/
theorem Expr.value?_plain (hV : V.YieldsPlain L) {e : Expr} (he : e.Over V) {c : Context}
    (hc : c.Plain) {v : Value} (hv : e.value? L c = some v) : v.Plain :=
  value?_only hV.only he hc hv

end

/-! ## Evaluation -/

section
variable {σ : Type} {h : Host σ} {V : Vocabulary} {L : Library}

theorem Host.Steady.check (hh : h.Steady L) (s : σ) : ∃ s', h.check s = (.ok (), s') := by
  have hp := hh.poll s
  unfold Host.check
  split
  · rename_i heq; rw [heq] at hp; cases hp
  · exact ⟨_, rfl⟩

/-- The two outcomes of a step. -/
theorem outcome_cases {α : Type} {x : Except EvalError α × σ} {o : Option α}
    (h : x.1.toOption = o) :
    (∃ t s, x = (.error t, s) ∧ o = none) ∨ ∃ v s, x = (.ok v, s) ∧ o = some v := by
  obtain ⟨r, s⟩ := x
  cases r with
  | error t => exact .inl ⟨t, s, rfl, h.symm⟩
  | ok v => exact .inr ⟨v, s, rfl, h.symm⟩

/-- The value of a row of steps, without the states between them. -/
theorem onward_toOption {α β : Type} {x : Except EvalError α × σ} {o : Option α}
    (hx : x.1.toOption = o) {f : α → σ → Except EvalError β × σ} {g : α → Option β}
    (hf : ∀ a s, o = some a → (f a s).1.toOption = g a) :
    (onward x f).1.toOption = o.bind g := by
  rcases outcome_cases hx with ⟨t, s, rfl, rfl⟩ | ⟨a, s, rfl, rfl⟩
  · rfl
  · exact hf a s rfl

/-- A test in the middle of a row. -/
theorem onward_test_toOption {α β : Type} {x : Except EvalError α} {o : Option α}
    (hx : x.toOption = o) {s : σ} {f : α → σ → Except EvalError β × σ} {g : α → Option β}
    (hf : ∀ a, (f a s).1.toOption = g a) : (onward (x, s) f).1.toOption = o.bind g := by
  subst hx
  cases x with
  | error t => rfl
  | ok a => exact hf a

section
variable {c : Context} {e : Expr} {es : List Expr}

/-- Where an unscored truth is asked for. -/
theorem onward_ebv {β : Type} (he : ∀ s, (e.eval h c s).1.toOption = e.value? L c)
    (hp : ∀ v, e.value? L c = some v → v.Unscored) {f : Truth → σ → Except EvalError β × σ}
    {g : Bool → Option β} (hf : ∀ b s, (f (.plain b) s).1.toOption = g b) (s : σ) :
    (onward (e.ebv h c s) f).1.toOption = (e.test? L c).bind g := by
  have hebv : (e.ebv h c s).1.toOption = (e.test? L c).map .plain := by
    rw [ebv_steps, Expr.test?, Option.map_bind]
    refine onward_toOption (he s) fun v s hv => ?_
    rcases (hp v hv).ebv_cases e.span with ⟨t, hb, ht⟩ | ⟨b, hb, ht⟩
    · rw [hb, Function.comp_apply, ht]; rfl
    · rw [hb, Function.comp_apply, ht]; rfl
  rcases outcome_cases hebv with ⟨t, s', hx, ho⟩ | ⟨b, s', hx, ho⟩
  · rw [hx, Option.map_eq_none_iff.mp ho]
    rfl
  · obtain ⟨b, hb, rfl⟩ := Option.map_eq_some_iff.mp ho
    rw [hx, hb]
    exact hf b s'

theorem evalAll_eq (hh : h.Steady L)
    (hes : ∀ e ∈ es, ∀ s, (e.eval h c s).1.toOption = e.value? L c)
    (hp : ∀ e ∈ es, ∀ v, e.value? L c = some v → v.Unscored) (s : σ) :
    (evalAll h es c .zero s).1.toOption = (truth? L .conjunction es c).map .ofBool := by
  induction es generalizing s with
  | nil => rfl
  | cons e es ih =>
    obtain ⟨he, hes⟩ := List.forall_mem_cons.mp hes
    obtain ⟨hpe, hp⟩ := List.forall_mem_cons.mp hp
    obtain ⟨s', hs⟩ := hh.check s
    rw [evalAll_steps, hs, onward_ok, truth?, Option.map_bind]
    refine onward_ebv he hpe (fun b s => ?_) s'
    cases b with
    | false => rfl
    | true =>
      have hz : (if c.scoring then Score.zero.both (Truth.plain true).score else .zero) =
          Score.zero := by
        split <;> rfl
      simp only [hz]
      exact ih hes hp s

theorem evalAny_eq (hh : h.Steady L)
    (hes : ∀ e ∈ es, ∀ s, (e.eval h c s).1.toOption = e.value? L c)
    (hp : ∀ e ∈ es, ∀ v, e.value? L c = some v → v.Unscored) (s : σ) :
    (evalAny h es c none s).1.toOption = (truth? L .disjunction es c).map .ofBool := by
  induction es generalizing s with
  | nil => rfl
  | cons e es ih =>
    obtain ⟨he, hes⟩ := List.forall_mem_cons.mp hes
    obtain ⟨hpe, hp⟩ := List.forall_mem_cons.mp hp
    obtain ⟨s', hs⟩ := hh.check s
    rw [evalAny_steps, hs, onward_ok, truth?, Option.map_bind]
    refine onward_ebv he hpe (fun b s => ?_) s'
    cases b with
    | false => exact ih hes hp s
    | true => rfl

theorem evalSwitch_eq (hh : h.Steady L) {i : Option Item} {span : Span} {d : Expr}
    {cs : List (Expr × Expr)}
    (hcs : ∀ p ∈ cs, ∀ s, (p.1.eval h c s).1.toOption = p.1.value? L c ∧
      (p.2.eval h c s).1.toOption = p.2.value? L c)
    (hd : ∀ s, (d.eval h c s).1.toOption = d.value? L c) (s : σ) :
    (onward (evalSwitch h i span cs c s) fun o s =>
      o.elim (d.eval h c s) fun w => (.ok w, s)).1.toOption =
        caseValue? L i (d.value? L c) cs c := by
  induction cs generalizing s with
  | nil => exact hd s
  | cons p cs ih =>
    obtain ⟨hp, hcs⟩ := List.forall_mem_cons.mp hcs
    obtain ⟨s', hs⟩ := hh.check s
    rw [evalSwitch_steps, hs, onward_ok, caseValue?, Option.bind_assoc, onward_assoc]
    refine onward_toOption (hp s').1 fun v s _ => ?_
    rw [onward_assoc]
    refine onward_test_toOption (v.single_toOption span) fun j => ?_
    split
    · rw [onward_assoc]
      rw [← Option.bind_fun_some (p.2.value? L c)]
      exact onward_toOption (hp s).2 fun w s _ => rfl
    · exact ih hcs s

theorem evalTypeswitch_eq (hh : h.Steady L) {v : Value} {span : Span} {cs : List (CaseHead × Expr)}
    (hcs : ∀ p ∈ cs, ∀ s, (p.2.eval h (p.1.bind v c) s).1.toOption =
      p.2.value? L (p.1.bind v c)) (s : σ) :
    (evalTypeswitch h v span cs c s).1.toOption = typeCaseValue? L v cs c := by
  induction cs generalizing s with
  | nil => rfl
  | cons p cs ih =>
    obtain ⟨hp, hcs⟩ := List.forall_mem_cons.mp hcs
    obtain ⟨s', hs⟩ := hh.check s
    rw [evalTypeswitch_steps, hs, onward_ok, typeCaseValue?]
    split
    · exact hp s'
    · exact ih hcs s'

theorem evalArgs_eq (hh : h.Steady L)
    (hes : ∀ e ∈ es, ∀ s, (e.eval h c s).1.toOption = e.value? L c) (s : σ) :
    (evalArgs h es c s).1.toOption = argValues? L es c := by
  induction es generalizing s with
  | nil => rfl
  | cons e es ih =>
    obtain ⟨he, hes⟩ := List.forall_mem_cons.mp hes
    obtain ⟨s', hs⟩ := hh.check s
    rw [evalArgs_steps, hs, onward_ok, argValues?]
    refine onward_toOption (he s') fun v s _ => ?_
    rw [Option.map_eq_bind]
    exact onward_toOption (ih hes s) fun vs s _ => rfl

end

/-- Evaluation of an unscored expression by a steady host. -/
theorem Expr.eval_unscored (hh : h.Steady L) (hV : V.YieldsOnly L Value.Unscored) {e : Expr}
    (he : e.Over V) {c : Context} (hc : c.Only Value.Unscored) (s : σ) :
    (e.eval h c s).1.toOption = e.value? L c := by
  induction e generalizing c s with
  | connective k es span ih =>
    obtain ⟨-, hes⟩ := Expr.every_connective.mp he
    have hes' : ∀ e ∈ es, ∀ s, (e.eval h c s).1.toOption = e.value? L c :=
      fun e hm s => ih e hm (hes e hm) hc s
    have hp : ∀ e ∈ es, ∀ v, e.value? L c = some v → v.Unscored :=
      fun e hm v hv => value?_only hV (hes e hm) hc hv
    cases k with
    | conjunction => exact evalAll_eq hh hes' hp s
    | disjunction => exact evalAny_eq hh hes' hp s
  | switch e cs d span ihe ihcs ihd =>
    obtain ⟨-, he, hcs, hd⟩ := Expr.every_switch.mp he
    rw [eval_switch_steps, Expr.value?]
    refine onward_toOption (ihe he hc s) fun v s _ => ?_
    refine onward_test_toOption (v.single_toOption span) fun i => ?_
    refine evalSwitch_eq hh (fun p hp s => ?_) (fun s => ihd hd hc s) s
    exact ⟨(ihcs p hp).1 (hcs p hp).1 hc s, (ihcs p hp).2 (hcs p hp).2 hc s⟩
  | typeswitch e cs span ihe ihcs =>
    obtain ⟨-, he, hcs⟩ := Expr.every_typeswitch.mp he
    rw [eval_typeswitch_steps, Expr.value?]
    refine onward_toOption (ihe he hc s) fun v s hv => ?_
    refine evalTypeswitch_eq hh (fun p hp s => ?_) s
    exact ihcs p hp (hcs p hp) (hc.bindCase (value?_only hV he hc hv) p.1) s
  | cast e t span ih =>
    rw [eval_cast_steps, Expr.value?]
    exact onward_toOption (ih (Expr.every_cast.mp he).2 hc s) fun v _ _ => v.cast_toOption t span
  | call fn e span ih =>
    obtain ⟨-, he⟩ := Expr.every_call.mp he
    have hvalue : (Expr.call fn e span).value? L c =
        (e.test? L c).bind fun b => some (.ofBool (fn.answer b)) := by
      rw [Expr.value?, Expr.test?, Option.bind_assoc]
      simp only [Option.map_eq_bind]
      rfl
    rw [eval_call_steps, hvalue]
    refine onward_ebv (ih he hc) (fun v hv => value?_only hV he hc hv) (fun b s => ?_) s
    cases fn <;> rfl
  | compare op l r span ihl ihr =>
    obtain ⟨-, hl, hr⟩ := Expr.every_compare.mp he
    rw [eval_compare_steps, Expr.value?]
    refine onward_toOption (ihl hl hc s) fun v s _ => onward_toOption (ihr hr hc s) fun w s _ => ?_
    rw [Except.toOption_map, Value.compare_toOption]
  | range b e span ih =>
    rw [eval_range_steps, Expr.value?]
    refine onward_toOption (ih (Expr.every_range.mp he).2 hc s) fun v s _ => ?_
    rw [Except.toOption_map, Bounds.test_toOption]
  | position a b span =>
    rw [Expr.eval, Expr.value?]
    cases c.focus <;> rfl
  | literal w => rfl
  | var x span =>
    rw [Expr.eval, Expr.value?]
    cases c.lookup x.id <;> rfl
  | external fn es tail span ih =>
    obtain ⟨-, hes⟩ := Expr.every_external.mp he
    rw [eval_external_steps, Expr.value?]
    exact onward_toOption (evalArgs_eq hh (fun e hm s => ih e hm (hes e hm) hc s) s)
      fun vs s _ => hh.invoke fn vs _ s
  | failing t type span => rfl

theorem Expr.eval_eq (hh : h.Steady L) (hV : V.YieldsPlain L) {e : Expr} (he : e.Over V)
    {c : Context} (hc : c.Plain) (s : σ) : (e.eval h c s).1.toOption = e.value? L c :=
  eval_unscored hh hV.unscored he (fun id v hv => (hc id v hv).unscored) s

/-- What evaluation yields is the value. -/
theorem Expr.value?_of_eval (hh : h.Steady L) (hV : V.YieldsPlain L) {e : Expr} (he : e.Over V)
    {c : Context} (hc : c.Plain) {s s' : σ} {v : Value} (hv : e.eval h c s = (.ok v, s')) :
    e.value? L c = some v := by
  have ho := Expr.eval_eq hh hV he hc s
  rw [hv] at ho
  exact ho.symm

/-- What has a value is evaluated to it. -/
theorem Expr.eval_of_value? (hh : h.Steady L) (hV : V.YieldsPlain L) {e : Expr} (he : e.Over V)
    {c : Context} (hc : c.Plain) {v : Value} (hv : e.value? L c = some v) (s : σ) :
    ∃ s', e.eval h c s = (.ok v, s') := by
  have ho := Expr.eval_eq hh hV he hc s
  rw [hv] at ho
  rcases outcome_cases ho with ⟨t, s', _, ho⟩ | ⟨w, s', hw, ho⟩
  · cases ho
  · cases ho
    exact ⟨s', hw⟩

end

end QueryExpr
