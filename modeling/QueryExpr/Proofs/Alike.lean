import QueryExpr.Proofs.Bare
import QueryExpr.Proofs.Interval
import QueryExpr.Proofs.Regular
import QueryExpr.Proofs.Same

/-!
# QueryExpr.Proofs.Alike

Two evaluations side by side: alike expressions, each under a host of its own.

* `Agree`          — two outcomes have one value and related states, or neither has a value.
* `Host.Agrees`    — two hosts whose answers agree, for the functions of some names.
* `Expr.Alike`     — expressions that differ in nothing that a value depends on.
* `Expr.Alike.eval` — so their evaluations agree.
* `Expr.alike_of_same` — structural equality is likeness, as long as no literal is a negative zero.
-/

namespace QueryExpr

/-! ## Outcomes -/

section
variable {σ τ α β : Type} {R : σ → τ → Prop}

/-- Both outcomes have one value, and their states are related; or neither has a value. -/
inductive Agree (R : σ → τ → Prop) : Except EvalError α × σ → Except EvalError α × τ → Prop where
  | ok {s : σ} {t : τ} (a : α) : R s t → Agree R (.ok a, s) (.ok a, t)
  | error {s : σ} {t : τ} (u v : EvalError) : Agree R (.error u, s) (.error v, t)

namespace Agree

theorem cases {x : Except EvalError α × σ} {y : Except EvalError α × τ} (h : Agree R x y) :
    (∃ u s v t, x = (.error u, s) ∧ y = (.error v, t)) ∨
      ∃ a s t, x = (.ok a, s) ∧ y = (.ok a, t) ∧ R s t := by
  cases h with
  | ok a hR => exact .inr ⟨a, _, _, rfl, rfl, hR⟩
  | error u v => exact .inl ⟨u, _, v, _, rfl, rfl⟩

/-- The value that one outcome has is that of the other. -/
theorem of_ok {x : Except EvalError α × σ} {y : Except EvalError α × τ} (h : Agree R x y) {a : α}
    {s : σ} (hx : x = (.ok a, s)) : ∃ t, y = (.ok a, t) ∧ R s t := by
  cases h with
  | ok b hR => cases hx; exact ⟨_, rfl, hR⟩
  | error => cases hx

end Agree

end

/-- The two outcomes of tests that are equal without their errors. -/
theorem toOption_cases {α : Type} {x y : Except EvalError α} (h : x.toOption = y.toOption) :
    (∃ u v, x = .error u ∧ y = .error v) ∨ ∃ a, x = .ok a ∧ y = .ok a := by
  cases x with
  | error u =>
    cases y with
    | error v => exact .inl ⟨u, v, rfl, rfl⟩
    | ok b => cases h
  | ok a =>
    cases y with
    | error v => cases h
    | ok b => cases h; exact .inr ⟨a, rfl, rfl⟩

/-- Tests that are equal without their errors agree. -/
theorem Agree.of_toOption {σ τ α : Type} {R : σ → τ → Prop} {x y : Except EvalError α}
    (h : x.toOption = y.toOption) {s : σ} {t : τ} (hR : R s t) : Agree R (x, s) (y, t) := by
  rcases toOption_cases h with ⟨u, v, rfl, rfl⟩ | ⟨a, rfl, rfl⟩
  · exact .error u v
  · exact .ok a hR

/-- Outcomes that agree go on alike. -/
theorem Agree.onward {σ τ α β : Type} {R : σ → τ → Prop} {x : Except EvalError α × σ}
    {y : Except EvalError α × τ} (h : Agree R x y) {f : α → σ → Except EvalError β × σ}
    {g : α → τ → Except EvalError β × τ} (hfg : ∀ a s t, R s t → Agree R (f a s) (g a t)) :
    Agree R (QueryExpr.onward x f) (QueryExpr.onward y g) := by
  cases h with
  | ok a hR => exact hfg a _ _ hR
  | error u v => exact .error u v

/-! ## Hosts -/

/-- In related states neither host cancels, and functions of some names yield the same. -/
structure Host.Agrees {σ τ : Type} (h : Host σ) (g : Host τ) (R : σ → τ → Prop)
    (P : String → Prop) : Prop where
  check : ∀ {s t}, R s t → Agree R (h.check s) (g.check t)
  invoke : ∀ {f f' : ExternalFn} {vs i i' s t}, f.name = f'.name → P f.name → R s t →
    Agree R (h.invoke f vs i s) (g.invoke f' vs i' t)

/-- Hosts of one library agree, whatever their states are. -/
theorem Host.Steady.agrees {σ τ : Type} {h : Host σ} {g : Host τ} {L : Library} (hh : h.Steady L)
    (hg : g.Steady L) : h.Agrees g (fun _ _ => True) fun _ => True where
  check := by
    intro s t _
    obtain ⟨s', hs⟩ := hh.check s
    obtain ⟨t', ht⟩ := hg.check t
    rw [hs, ht]
    exact .ok () trivial
  invoke := by
    intro f f' vs i i' s t hf _ _
    have hL := (hh.invoke f vs i s).trans (hf ▸ (hg.invoke f' vs i' t).symm)
    exact Agree.of_toOption hL trivial

/-! ## Likeness -/

/-- Expressions that differ in places, tail marks, names of variables, signs of zeros in bounds, and
in all of an external function but its name; the names of the functions are among some. -/
inductive Expr.Alike (P : String → Prop) : Expr → Expr → Prop where
  | connective {k : Connective} {es ds : List Expr} {s s' : Span} : es.length = ds.length →
    (∀ {e d}, (e, d) ∈ es.zip ds → e.Alike P d) →
    Alike P (.connective k es s) (.connective k ds s')
  | switch {e d o o' : Expr} {cs ds : List (Expr × Expr)} {s s' : Span} : e.Alike P d →
    cs.length = ds.length → (∀ {p q}, (p, q) ∈ cs.zip ds → p.1.Alike P q.1) →
    (∀ {p q}, (p, q) ∈ cs.zip ds → p.2.Alike P q.2) → o.Alike P o' →
    Alike P (.switch e cs o s) (.switch d ds o' s')
  | typeswitch {e d : Expr} {cs ds : List (CaseHead × Expr)} {s s' : Span} : e.Alike P d →
    cs.length = ds.length → (∀ {p q}, (p, q) ∈ cs.zip ds → p.1.same q.1 = true) →
    (∀ {p q}, (p, q) ∈ cs.zip ds → p.2.Alike P q.2) →
    Alike P (.typeswitch e cs s) (.typeswitch d ds s')
  | cast {e d : Expr} {t : SeqType} {s s' : Span} : e.Alike P d →
    Alike P (.cast e t s) (.cast d t s')
  | call {fn : Builtin} {e d : Expr} {s s' : Span} : e.Alike P d →
    Alike P (.call fn e s) (.call fn d s')
  | compare {op : CompareOp} {l l' r r' : Expr} {s s' : Span} : l.Alike P l' → r.Alike P r' →
    Alike P (.compare op l r s) (.compare op l' r' s')
  | range {b b' : Bounds} {e d : Expr} {s s' : Span} : (∀ v, b.test? v = b'.test? v) →
    e.Alike P d → Alike P (.range b e s) (.range b' d s')
  | position {a b : Int64} {s s' : Span} : Alike P (.position a b s) (.position a b s')
  | literal {v : Value} : Alike P (.literal v) (.literal v)
  | var {x y : Var} {s s' : Span} : x.id = y.id → Alike P (.var x s) (.var y s')
  | external {fn fn' : ExternalFn} {es ds : List Expr} {t t' : Bool} {s s' : Span} :
    fn.name = fn'.name → P fn.name → es.length = ds.length →
    (∀ {e d}, (e, d) ∈ es.zip ds → e.Alike P d) →
    Alike P (.external fn es t s) (.external fn' ds t' s')
  | failing {cause cause' : CompileError} {t t' : SeqType} {s s' : Span} :
    Alike P (.failing cause t s) (.failing cause' t' s')

section
variable {σ τ : Type} {h : Host σ} {g : Host τ} {R : σ → τ → Prop} {P : String → Prop}
  {c : Context}

/-! ## Evaluation of lists -/

/-- The evaluations of two expressions agree wherever they start from related states. -/
def AgreeOn (h : Host σ) (g : Host τ) (R : σ → τ → Prop) (c : Context) (e d : Expr) : Prop :=
  ∀ s t, R s t → Agree R (e.eval h c s) (d.eval g c t)

theorem AgreeOn.ebv {e d : Expr} (he : AgreeOn h g R c e d) {s : σ} {t : τ} (hR : R s t) :
    Agree R (e.ebv h c s) (d.ebv g c t) := by
  rw [ebv_steps, ebv_steps]
  exact (he s t hR).onward fun v _ _ hR =>
    .of_toOption ((v.ebv_grade _).trans (v.ebv_grade _).symm) hR

theorem Agree.single (v : Value) (span span' : Span) {s : σ} {t : τ} (hR : R s t) :
    Agree R (v.single? span, s) (v.single? span', t) :=
  .of_toOption ((v.single_toOption span).trans (v.single_toOption span').symm) hR

theorem evalAll_agree (hg : h.Agrees g R P) {es ds : List Expr}
    (hes : List.Forall₂ (AgreeOn h g R c) es ds) (score : Score) {s : σ} {t : τ} (hR : R s t) :
    Agree R (evalAll h es c score s) (evalAll g ds c score t) := by
  induction hes generalizing score s t with
  | nil => exact .ok _ hR
  | cons he _ ih =>
    rw [evalAll_steps, evalAll_steps]
    refine (hg.check hR).onward fun _ s t hR => (he.ebv hR).onward fun b s t hR => ?_
    split
    · exact ih _ hR
    · exact .ok _ hR

theorem evalAny_agree (hg : h.Agrees g R P) {es ds : List Expr}
    (hes : List.Forall₂ (AgreeOn h g R c) es ds) (score : Option Score) {s : σ} {t : τ}
    (hR : R s t) : Agree R (evalAny h es c score s) (evalAny g ds c score t) := by
  induction hes generalizing score s t with
  | nil => exact .ok _ hR
  | cons he _ ih =>
    rw [evalAny_steps, evalAny_steps]
    refine (hg.check hR).onward fun _ s t hR => (he.ebv hR).onward fun b s t hR => ?_
    split
    · split
      · exact .ok _ hR
      · exact ih _ hR
    · exact ih _ hR

theorem evalSwitch_agree (hg : h.Agrees g R P) (i : Option Item) (span span' : Span)
    {cs ds : List (Expr × Expr)}
    (hcs : List.Forall₂ (fun p q => AgreeOn h g R c p.1 q.1 ∧ AgreeOn h g R c p.2 q.2) cs ds)
    {s : σ} {t : τ} (hR : R s t) :
    Agree R (evalSwitch h i span cs c s) (evalSwitch g i span' ds c t) := by
  induction hcs generalizing s t with
  | nil => exact .ok _ hR
  | cons hp _ ih =>
    rw [evalSwitch_steps, evalSwitch_steps]
    refine (hg.check hR).onward fun _ s t hR => (hp.1 s t hR).onward fun w s t hR => ?_
    refine (Agree.single w span span' hR).onward fun j s t hR => ?_
    split
    · exact (hp.2 s t hR).onward fun w s t hR => .ok _ hR
    · exact ih hR

theorem evalTypeswitch_agree (hg : h.Agrees g R P) {v : Value} {span span' : Span}
    {cs ds : List (CaseHead × Expr)}
    (hcs : List.Forall₂ (fun p q => p.1.same q.1 = true ∧
      ∀ c, AgreeOn h g R c p.2 q.2) cs ds) {s : σ} {t : τ} (hR : R s t) :
    Agree R (evalTypeswitch h v span cs c s) (evalTypeswitch g v span' ds c t) := by
  induction hcs generalizing s t with
  | nil => exact .error _ _
  | cons hp _ ih =>
    rw [evalTypeswitch_steps, evalTypeswitch_steps, CaseHead.admits_of_same hp.1,
      CaseHead.bind_of_same hp.1]
    refine (hg.check hR).onward fun _ s t hR => ?_
    split
    · exact hp.2 _ s t hR
    · exact ih hR

theorem evalArgs_agree (hg : h.Agrees g R P) {es ds : List Expr}
    (hes : List.Forall₂ (AgreeOn h g R c) es ds) {s : σ} {t : τ} (hR : R s t) :
    Agree R (evalArgs h es c s) (evalArgs g ds c t) := by
  induction hes generalizing s t with
  | nil => exact .ok _ hR
  | cons he _ ih =>
    rw [evalArgs_steps, evalArgs_steps]
    refine (hg.check hR).onward fun _ s t hR => (he s t hR).onward fun v s t hR => ?_
    exact (ih hR).onward fun vs s t hR => .ok _ hR

/-! ## Evaluation -/

/-- Alike expressions agree, under hosts that agree on their functions. -/
theorem Expr.Alike.eval (hg : h.Agrees g R P) {e d : Expr} (he : e.Alike P d) (c : Context) :
    AgreeOn h g R c e d := by
  induction he generalizing c with
  | @connective k es ds _ _ hlen _ ih =>
    intro s t hR
    have hes : List.Forall₂ (AgreeOn h g R c) es ds :=
      List.forall₂_iff_zip.mpr ⟨hlen, fun hp => ih hp c⟩
    cases k with
    | conjunction => simp only [Expr.eval]; exact evalAll_agree hg hes _ hR
    | disjunction => simp only [Expr.eval]; exact evalAny_agree hg hes _ hR
  | @switch e d o o' cs ds span span' _ hlen _ _ _ ihe ihv ihr iho =>
    intro s t hR
    have hcs : List.Forall₂ (fun p q => AgreeOn h g R c p.1 q.1 ∧ AgreeOn h g R c p.2 q.2) cs ds :=
      List.forall₂_iff_zip.mpr ⟨hlen, fun hp => ⟨ihv hp c, ihr hp c⟩⟩
    rw [eval_switch_steps, eval_switch_steps]
    refine (ihe c s t hR).onward fun v s t hR => ?_
    refine (Agree.single v span span' hR).onward fun i s t hR => ?_
    refine (evalSwitch_agree hg i span span' hcs hR).onward fun w s t hR => ?_
    cases w with
    | none => exact iho c s t hR
    | some w => exact .ok w hR
  | @typeswitch e d cs ds span span' _ hlen hheads _ ihe ihcs =>
    intro s t hR
    have hcs : List.Forall₂ (fun p q => p.1.same q.1 = true ∧
        ∀ c, AgreeOn h g R c p.2 q.2) cs ds :=
      List.forall₂_iff_zip.mpr ⟨hlen, fun hp => ⟨hheads hp, ihcs hp⟩⟩
    rw [eval_typeswitch_steps, eval_typeswitch_steps]
    exact (ihe c s t hR).onward fun v s t hR => evalTypeswitch_agree hg hcs hR
  | cast _ ih =>
    intro s t hR
    rw [eval_cast_steps, eval_cast_steps]
    exact (ih c s t hR).onward fun v s t hR =>
      .of_toOption ((v.cast_toOption _ _).trans (v.cast_toOption _ _).symm) hR
  | call _ ih =>
    intro s t hR
    rw [eval_call_steps, eval_call_steps]
    exact ((ih c).ebv hR).onward fun b s t hR => .ok _ hR
  | compare _ _ ihl ihr =>
    intro s t hR
    rw [eval_compare_steps, eval_compare_steps]
    refine (ihl c s t hR).onward fun v s t hR => (ihr c s t hR).onward fun w s t hR => ?_
    refine .of_toOption ?_ hR
    rw [Except.toOption_map, Except.toOption_map, Value.compare_toOption, Value.compare_toOption]
  | range hb _ ih =>
    intro s t hR
    rw [eval_range_steps, eval_range_steps]
    refine (ih c s t hR).onward fun v s t hR => .of_toOption ?_ hR
    rw [Except.toOption_map, Except.toOption_map, Bounds.test_toOption, Bounds.test_toOption, hb]
  | position =>
    intro s t hR
    simp only [Expr.eval]
    cases c.focus with
    | none => exact .error _ _
    | some f => exact .ok _ hR
  | literal => intro s t hR; exact .ok _ hR
  | @var x y _ _ hid =>
    intro s t hR
    simp only [Expr.eval, hid]
    cases c.lookup y.id with
    | none => exact .error _ _
    | some v => exact .ok v hR
  | @external fn fn' es ds _ _ _ _ hfn hP hlen _ ih =>
    intro s t hR
    have hes : List.Forall₂ (AgreeOn h g R c) es ds :=
      List.forall₂_iff_zip.mpr ⟨hlen, fun hp => ih hp c⟩
    rw [eval_external_steps, eval_external_steps]
    exact (evalArgs_agree hg hes hR).onward fun vs s t hR => hg.invoke hfn hP hR
  | failing => intro s t hR; exact .error _ _

end

/-! ## Equal expressions -/

/-- The names of all functions are among some. -/
def Expr.CallsOnly (P : String → Prop) (e : Expr) : Prop :=
  e.Every fun
    | .external fn _ _ _ => P fn.name
    | _ => True

theorem CaseHead.same_self (p : CaseHead) : p.same p = true := by
  obtain ⟨x, t⟩ := p
  cases x <;> simp [CaseHead.same, sameVar?, Var.same]

/-- An expression is like itself. -/
theorem Expr.CallsOnly.alike {P : String → Prop} {e : Expr} (h : e.CallsOnly P) : e.Alike P e := by
  induction e with
  | connective k es span ih =>
    have hes := (Expr.every_connective.mp h).2
    have hself : List.Forall₂ (Alike P) es es :=
      List.forall₂_same.mpr fun e he => ih e he (hes e he)
    exact .connective rfl (List.forall₂_zip hself)
  | switch e cs d span ihe ihcs ihd =>
    obtain ⟨-, he, hcs, hd⟩ := Expr.every_switch.mp h
    have hself : List.Forall₂ (fun p q => p.1.Alike P q.1 ∧ p.2.Alike P q.2) cs cs :=
      List.forall₂_same.mpr fun p hp =>
        ⟨(ihcs p hp).1 (hcs p hp).1, (ihcs p hp).2 (hcs p hp).2⟩
    exact .switch (ihe he) rfl (fun hp => (List.forall₂_zip hself hp).1)
      (fun hp => (List.forall₂_zip hself hp).2) (ihd hd)
  | typeswitch e cs span ihe ihcs =>
    obtain ⟨-, he, hcs⟩ := Expr.every_typeswitch.mp h
    have hself : List.Forall₂ (fun p q => p.1.same q.1 = true ∧ p.2.Alike P q.2) cs cs :=
      List.forall₂_same.mpr fun p hp => ⟨p.1.same_self, ihcs p hp (hcs p hp)⟩
    exact .typeswitch (ihe he) rfl (fun hp => (List.forall₂_zip hself hp).1)
      fun hp => (List.forall₂_zip hself hp).2
  | cast e t span ih => exact .cast (ih (Expr.every_cast.mp h).2)
  | call fn e span ih => exact .call (ih (Expr.every_call.mp h).2)
  | compare op l r span ihl ihr =>
    obtain ⟨-, hl, hr⟩ := Expr.every_compare.mp h
    exact .compare (ihl hl) (ihr hr)
  | range b e span ih => exact .range (fun _ => rfl) (ih (Expr.every_range.mp h).2)
  | position a b span => exact .position
  | literal v => exact .literal
  | var x span => exact .var rfl
  | external fn es tail span ih =>
    obtain ⟨hfn, hes⟩ := Expr.every_external.mp h
    have hself : List.Forall₂ (Alike P) es es :=
      List.forall₂_same.mpr fun e he => ih e he (hes e he)
    exact .external rfl hfn rfl (List.forall₂_zip hself)
  | failing t type span => exact .failing

theorem Expr.callsOnly_any (e : Expr) : e.CallsOnly fun _ => True := by
  intro d _
  cases d <;> trivial

/-- Two hosts of one library yield the same. -/
theorem Host.Steady.eval_agrees {σ τ : Type} {h : Host σ} {g : Host τ} {L : Library}
    (hh : h.Steady L) (hg : g.Steady L) (e : Expr) (c : Context) :
    AgreeOn h g (fun _ _ => True) c e e :=
  e.callsOnly_any.alike.eval (hh.agrees hg) c

/-- Two numbers that are equal are one number, unless one is the negative zero. -/
theorem Binary.eq_of_equal {f : Format} {x y : Binary f} (hx : x ≠ .zero true) (hy : y ≠ .zero true)
    (h : x.equal y = true) : x = y := by
  have hpos := position_of_equal h
  have hlimit := f.limit_pos
  cases x with
  | nan => simp [equal, compare, position] at h
  | infinite n =>
    cases y with
    | nan => simp [equal, compare, position] at h
    | infinite m =>
      simp only [position, Option.some.injEq] at hpos
      cases n <;> cases m <;> simp at hpos ⊢ <;> omega
    | finite m u hu =>
      have := hu.1
      simp only [position, Option.some.injEq] at hpos
      cases n <;> cases m <;> simp at hpos <;> omega
  | finite n u hu =>
    have := hu.1
    cases y with
    | nan => simp [equal, compare, position] at h
    | infinite m =>
      simp only [position, Option.some.injEq] at hpos
      cases n <;> cases m <;> simp at hpos <;> omega
    | finite m v hv =>
      simp only [zero, ne_eq, Binary.finite.injEq, not_and] at hx hy
      simp only [position, Option.some.injEq] at hpos
      cases n <;> cases m <;> simp at hx hy hpos ⊢ <;> omega

/-- No number of an item is the negative zero, so that equal numbers are the same. -/
def Item.Canonical : Item → Prop
  | .bool b => b.score.value ≠ .zero true
  | .float x => x ≠ .zero true
  | .double x => x ≠ .zero true
  | _ => True

def Value.Canonical (v : Value) : Prop := ∀ i ∈ v, i.Canonical

theorem Item.Plain.canonical {i : Item} (h : i.Plain) : i.Canonical := by
  cases i with
  | bool b =>
    have hb : b.score = .zero := h
    simp [Canonical, hb, Score.zero, Binary.zero]
  | float x => exact h.elim
  | double x => exact h.elim
  | _ => trivial

/-- An effective boolean value has the score of a boolean of the value, or none. -/
theorem Value.Canonical.ebv {v : Value} (hv : v.Canonical) {span : Span} {b : Truth}
    (hb : v.ebv span = .ok b) : (Value.ofTruth b).Canonical := by
  have hplain (x : Bool) : (Value.ofBool x).Canonical := fun i hi => by
    cases List.mem_singleton.mp hi
    exact Item.Plain.canonical rfl
  match v with
  | [] => cases hb; exact hplain false
  | [i] =>
    cases i with
    | bool a => cases hb; exact hv
    | qname q => cases hb
    | _ => cases hb; exact hplain _
  | _ :: _ :: _ => cases hb

theorem Item.Canonical.eq_of_same {i j : Item} (hi : i.Canonical) (hj : j.Canonical)
    (h : i.same j = true) : i = j := by
  cases i with
  | bool a =>
    cases j with
    | bool b =>
      obtain ⟨a, ⟨r⟩⟩ := a
      obtain ⟨b, ⟨r'⟩⟩ := b
      simp only [Item.same, Truth.same, Score.equal, Bool.and_eq_true, beq_iff_eq] at h
      obtain ⟨rfl, h⟩ := h
      obtain rfl : r = r' := Binary.eq_of_equal hi hj h
      rfl
    | _ => simp [Item.same] at h
  | float x =>
    cases j with
    | float y => rw [Binary.eq_of_equal hi hj h]
    | _ => simp [Item.same] at h
  | double x =>
    cases j with
    | double y => rw [Binary.eq_of_equal hi hj h]
    | _ => simp [Item.same] at h
  | _ => cases j <;> simp [Item.same] at h; rw [h]

theorem Value.Canonical.eq_of_same {v w : Value} (hv : v.Canonical) (hw : w.Canonical)
    (h : v.same w = true) : v = w := by
  induction v generalizing w with
  | nil =>
    cases w with
    | nil => rfl
    | cons j w => cases h
  | cons i v ih =>
    cases w with
    | nil => cases h
    | cons j w =>
      obtain ⟨hi, hv⟩ := List.forall_mem_cons.mp hv
      obtain ⟨hj, hw⟩ := List.forall_mem_cons.mp hw
      simp only [Value.same, Bool.and_eq_true] at h
      rw [Item.Canonical.eq_of_same hi hj h.1, ih hv hw h.2]

/-- No literal holds a negative zero. -/
def Expr.IsCanonical : Expr → Prop
  | .literal v => v.Canonical
  | _ => True

/-- Equal expressions are alike, unless a literal is a negative zero. -/
theorem Expr.alike_of_same {P : String → Prop} {e d : Expr} (hP : e.CallsOnly P)
    (he : e.Every IsCanonical) (hd : d.Every IsCanonical) (h : e.same d = true) : e.Alike P d := by
  refine same_induction (motive := Alike P) ?connective ?switch ?typeswitch ?cast ?call ?compare
    ?range ?position ?literal ?var ?external ?failing (Every.and hP he) hd h
  case connective => exact fun h => .connective h.length_eq (List.forall₂_zip h)
  case switch =>
    exact fun he hcs ho => .switch he hcs.length_eq (fun hp => (List.forall₂_zip hcs hp).1)
      (fun hp => (List.forall₂_zip hcs hp).2) ho
  case typeswitch =>
    exact fun he hcs => .typeswitch he hcs.length_eq (fun hp => (List.forall₂_zip hcs hp).1)
      fun hp => (List.forall₂_zip hcs hp).2
  case cast => exact .cast
  case call => exact .call
  case compare => exact .compare
  case range => exact fun hb => .range (Bounds.test?_of_same hb)
  case position => exact .position
  case literal =>
    intro v w hv hw h
    rw [Value.Canonical.eq_of_same hv.2 hw h]
    exact .literal
  case var => exact .var
  case external =>
    exact fun hfn _ hname h => .external hname hfn.1 h.length_eq (List.forall₂_zip h)
  case failing => exact fun _ => .failing

end QueryExpr
