import QueryExpr.Proofs.Steps
import QueryExpr.Proofs.Types
import QueryExpr.Proofs.Vocabulary

/-!
# QueryExpr.Proofs.Soundness

Static types are sound: what an expression yields is an instance of its static type, for every
host, also one that cancels, and every context whose values conform to the declarations.

* `Expr.eval_eq_ok`   — what the value of a node comes from.
* `Expr.Answers`      — the nodes that yield one plain boolean, whatever their parts yield.
* `Expr.eval_admits`  — an expression yields an instance of its static type.
-/

namespace QueryExpr

/-- The declared types of variables by number. -/
abbrev Declarations := Nat → Option SeqType

/-- Bound values are instances of the declared types. -/
def Context.Conforms (D : Declarations) (c : Context) : Prop :=
  ∀ id v t, c.lookup id = some v → D id = some t → t.admits v = true

/-- What a vocabulary must promise for static types to be sound. -/
structure Vocabulary.Sound {σ : Type} (V : Vocabulary) (D : Declarations) (h : Host σ) : Prop where
  var : ∀ {x}, V.var x → x.type = D x.id
  fn : ∀ {f vs info s v s'}, V.fn f → h.invoke f vs info s = (.ok v, s') → f.type.admits v = true
  binds : ∀ {cs p x v t}, V.cases cs → p ∈ cs → p.1.var = some x → p.1.admits v = true →
    D x.id = some t → t.admits v = true
  target : ∀ {t}, V.target t → t.isCastTarget = true

/-! ## Contexts -/

theorem Context.lookup_bind (c : Context) (id id' : Nat) (v : Value) :
    (c.bind id v).lookup id' = if id = id' then some v else c.lookup id' := by
  simp only [Context.bind, Context.lookup, List.find?_cons]
  by_cases h : id = id'
  · simp [h]
  · have hb : (id == id') = false := by simpa using h
    simp [h, hb]

theorem Context.Conforms.bind {D : Declarations} {c : Context} (hc : c.Conforms D) {id : Nat}
    {v : Value} (hv : ∀ t, D id = some t → t.admits v = true) : (c.bind id v).Conforms D := by
  intro id' w t hw ht
  rw [Context.lookup_bind] at hw
  split at hw
  · rename_i h; cases hw; subst h; exact hv t ht
  · exact hc id' w t hw ht

section
variable {σ : Type} {h : Host σ} {D : Declarations} {V : Vocabulary}

/-! ## Types of branches -/

theorem switchType_admits {cs : List (Expr × Expr)} {t : SeqType} {v : Value}
    (hv : t.admits v = true ∨ ∃ p ∈ cs, p.2.type.admits v = true) :
    (switchType t cs).admits v = true := by
  induction cs generalizing t with
  | nil =>
    rcases hv with hv | ⟨p, hp, _⟩
    · exact hv
    · cases hp
  | cons p cs ih =>
    refine ih ?_
    rcases hv with hv | ⟨q, hq, hv⟩
    · exact .inl ((SeqType.within_join_left _ _).admits hv)
    · rcases List.mem_cons.mp hq with rfl | hq
      · exact .inl ((SeqType.within_join_right _ _).admits hv)
      · exact .inr ⟨q, hq, hv⟩

theorem typeswitchType_admits {cs : List (CaseHead × Expr)} {o : Option SeqType} {v : Value}
    (hv : (∃ t, o = some t ∧ t.admits v = true) ∨ ∃ p ∈ cs, p.2.type.admits v = true) :
    (typeswitchType o cs).admits v = true := by
  induction cs generalizing o with
  | nil =>
    rcases hv with ⟨t, rfl, hv⟩ | ⟨p, hp, _⟩
    · exact hv
    · cases hp
  | cons p cs ih =>
    obtain ⟨head, r⟩ := p
    rcases hv with ⟨t, rfl, hv⟩ | ⟨q, hq, hv⟩
    · exact ih (.inl ⟨_, rfl, (SeqType.within_join_left _ _).admits hv⟩)
    · rcases List.mem_cons.mp hq with rfl | hq
      · cases o with
        | none => exact ih (.inl ⟨_, rfl, hv⟩)
        | some t => exact ih (.inl ⟨_, rfl, (SeqType.within_join_right _ _).admits hv⟩)
      · cases o with
        | none => exact ih (.inr ⟨q, hq, hv⟩)
        | some t => exact ih (.inr ⟨q, hq, hv⟩)

/-! ## Results -/

/-- Conjunctions yield one boolean. -/
theorem evalAll_boolean {es : List Expr} {c : Context} {score : Score} {s s' : σ} {v : Value}
    (hv : evalAll h es c score s = (.ok v, s')) : ∃ b, v = .ofTruth b := by
  induction es generalizing score s with
  | nil => cases hv; exact ⟨_, rfl⟩
  | cons e es ih =>
    rw [evalAll_steps] at hv
    obtain ⟨_, s₁, -, hv⟩ := onward_eq_ok.mp hv
    obtain ⟨b, s₂, -, hv⟩ := onward_eq_ok.mp hv
    split at hv
    · exact ih hv
    · cases hv; exact ⟨_, rfl⟩

/-- Disjunctions yield one boolean. -/
theorem evalAny_boolean {es : List Expr} {c : Context} {score : Option Score} {s s' : σ}
    {v : Value} (hv : evalAny h es c score s = (.ok v, s')) : ∃ b, v = .ofTruth b := by
  induction es generalizing score s with
  | nil => cases hv; exact ⟨_, rfl⟩
  | cons e es ih =>
    rw [evalAny_steps] at hv
    obtain ⟨_, s₁, -, hv⟩ := onward_eq_ok.mp hv
    obtain ⟨b, s₂, -, hv⟩ := onward_eq_ok.mp hv
    split at hv
    · split at hv
      · cases hv; exact ⟨_, rfl⟩
      · exact ih hv
    · exact ih hv

/-- What a switch yields is the value of one of its case results. -/
theorem evalSwitch_result {i : Option Item} {span : Span} {cs : List (Expr × Expr)} {c : Context}
    {s s' : σ} {w : Value} (hw : evalSwitch h i span cs c s = (.ok (some w), s')) :
    ∃ p ∈ cs, ∃ s₁ s₂, p.2.eval h c s₁ = (.ok w, s₂) := by
  induction cs generalizing s with
  | nil => cases hw
  | cons p cs ih =>
    rw [evalSwitch_steps] at hw
    obtain ⟨_, s₁, -, hw⟩ := onward_eq_ok.mp hw
    obtain ⟨v, s₂, -, hw⟩ := onward_eq_ok.mp hw
    obtain ⟨j, -, hw⟩ := onward_test_eq_ok.mp hw
    split at hw
    · obtain ⟨u, s₃, hu, hw⟩ := onward_eq_ok.mp hw
      cases hw
      exact ⟨p, List.mem_cons_self .., _, _, hu⟩
    · obtain ⟨q, hq, hr⟩ := ih hw
      exact ⟨q, List.mem_cons_of_mem _ hq, hr⟩

/-- What a typeswitch yields is the value of the result of a case that admits the operand. -/
theorem evalTypeswitch_result {v w : Value} {span : Span} {cs : List (CaseHead × Expr)}
    {c : Context} {s s' : σ} (hw : evalTypeswitch h v span cs c s = (.ok w, s')) :
    ∃ p ∈ cs, p.1.admits v = true ∧ ∃ s₁ s₂, p.2.eval h (p.1.bind v c) s₁ = (.ok w, s₂) := by
  induction cs generalizing s with
  | nil => cases hw
  | cons p cs ih =>
    rw [evalTypeswitch_steps] at hw
    obtain ⟨_, s₁, -, hw⟩ := onward_eq_ok.mp hw
    split at hw
    · rename_i hadm
      exact ⟨p, List.mem_cons_self .., hadm, s₁, s', hw⟩
    · obtain ⟨q, hq, hr⟩ := ih hw
      exact ⟨q, List.mem_cons_of_mem _ hq, hr⟩

theorem Except.map_ofBool {x : Except EvalError Bool} {v : Value} :
    x.map Value.ofBool = .ok v ↔ ∃ b, x = .ok b ∧ v = .ofBool b := by
  cases x with
  | error t => constructor <;> nofun
  | ok b =>
    constructor
    · intro hv; cases hv; exact ⟨b, rfl, rfl⟩
    · rintro ⟨_, heq, rfl⟩; cases heq; rfl

/-! ## What the value of a node comes from -/

/-- How a node comes to its value: by the values of its parts, from one state to the next. -/
def Expr.Evaluates (h : Host σ) (c : Context) (s : σ) (v : Value) (s' : σ) : Expr → Prop
  | .connective .conjunction es _ => evalAll h es c .zero s = (.ok v, s')
  | .connective .disjunction es _ => evalAny h es c none s = (.ok v, s')
  | .switch e cs d span => ∃ w i s₁ o s₂, e.eval h c s = (.ok w, s₁) ∧ w.single? span = .ok i ∧
      evalSwitch h i span cs c s₁ = (.ok o, s₂) ∧
      o.elim (d.eval h c s₂) (fun u => (.ok u, s₂)) = (.ok v, s')
  | .typeswitch e cs span => ∃ u s₁, e.eval h c s = (.ok u, s₁) ∧
      evalTypeswitch h u span cs c s₁ = (.ok v, s')
  | .cast e t span => ∃ u, e.eval h c s = (.ok u, s') ∧ u.cast t span = .ok v
  | .call fn e _ => ∃ b, e.ebv h c s = (.ok b, s') ∧
      v = match fn with | .boolean => .ofTruth b | .not => .ofBool !b.value
  | .compare op l r span => ∃ u w s₁, l.eval h c s = (.ok u, s₁) ∧ r.eval h c s₁ = (.ok w, s') ∧
      (u.compare op span w).map .ofBool = .ok v
  | .range b e span => ∃ u, e.eval h c s = (.ok u, s') ∧ (b.test span u).map .ofBool = .ok v
  | .position i j _ => s' = s ∧ ∃ f, c.focus = some f ∧
      v = .ofBool (i ≤ f.position && f.position ≤ j)
  | .literal w => s' = s ∧ v = w
  | .var x _ => s' = s ∧ c.lookup x.id = some v
  | .external fn es tail span => ∃ vs s₁, evalArgs h es c s = (.ok vs, s₁) ∧
      h.invoke fn vs ⟨tail, span⟩ s₁ = (.ok v, s')
  | .failing _ _ _ => False

section
variable {c : Context} {s s' : σ} {v : Value}

theorem ebv_eq_ok {e : Expr} {t : Truth} :
    e.ebv h c s = (.ok t, s') ↔ ∃ v, e.eval h c s = (.ok v, s') ∧ v.ebv e.span = .ok t := by
  rw [ebv_steps, onward_last_eq_ok]

theorem Expr.eval_eq_ok {e : Expr} :
    e.eval h c s = (.ok v, s') ↔ e.Evaluates h c s v s' := by
  cases e with
  | connective k es span => cases k <;> rw [Expr.eval] <;> rfl
  | switch e cs d span =>
    rw [eval_switch_steps, onward_eq_ok, Evaluates]
    constructor
    · rintro ⟨w, s₁, hw, hv⟩
      obtain ⟨i, hi, hv⟩ := onward_test_eq_ok.mp hv
      obtain ⟨o, s₂, ho, hv⟩ := onward_eq_ok.mp hv
      exact ⟨w, i, s₁, o, s₂, hw, hi, ho, hv⟩
    · rintro ⟨w, i, s₁, o, s₂, hw, hi, ho, hv⟩
      exact ⟨w, s₁, hw, onward_test_eq_ok.mpr ⟨i, hi, onward_eq_ok.mpr ⟨o, s₂, ho, hv⟩⟩⟩
  | typeswitch e cs span => rw [eval_typeswitch_steps, onward_eq_ok, Evaluates]
  | cast e t span => rw [eval_cast_steps, onward_last_eq_ok, Evaluates]
  | call fn e span =>
    rw [eval_call_steps, onward_last_eq_ok (f := fun b => .ok _)]
    refine exists_congr fun b => and_congr_right fun _ => ?_
    rw [Except.ok.injEq]
    exact eq_comm
  | compare op l r span =>
    rw [eval_compare_steps, onward_eq_ok, Evaluates]
    constructor
    · rintro ⟨u, s₁, hu, hv⟩
      obtain ⟨w, hw, hv⟩ := onward_last_eq_ok.mp hv
      exact ⟨u, w, s₁, hu, hw, hv⟩
    · rintro ⟨u, w, s₁, hu, hw, hv⟩
      exact ⟨u, s₁, hu, onward_last_eq_ok.mpr ⟨w, hw, hv⟩⟩
  | range b e span => rw [eval_range_steps, onward_last_eq_ok, Evaluates]
  | position i j span =>
    rw [Expr.eval, Evaluates]
    cases c.focus <;> simp [and_comm, eq_comm]
  | literal w =>
    rw [Expr.eval, Evaluates]
    simp [and_comm, eq_comm]
  | var x span =>
    rw [Expr.eval, Evaluates]
    cases c.lookup x.id <;> simp [and_comm, eq_comm]
  | external fn es tail span => rw [eval_external_steps, onward_eq_ok, Evaluates]
  | failing t type span =>
    rw [Expr.eval, Evaluates]
    simp

/-- A built-in function yields a value exactly on an expression with a truth. -/
theorem eval_call_eq_ok {e : Expr} {fn : Builtin} {span : Span} :
    (Expr.call fn e span).eval h c s = (.ok v, s') ↔
      ∃ b, e.ebv h c s = (.ok b, s') ∧
        v = match fn with | .boolean => .ofTruth b | .not => .ofBool !b.value :=
  Expr.eval_eq_ok

theorem eval_switch_eq_ok {e d : Expr} {cs : List (Expr × Expr)} {span : Span}
    (hv : (Expr.switch e cs d span).eval h c s = (.ok v, s')) :
    (∃ s₁, d.eval h c s₁ = (.ok v, s')) ∨ ∃ p ∈ cs, ∃ s₁ s₂, p.2.eval h c s₁ = (.ok v, s₂) := by
  obtain ⟨w, i, s₁, o, s₂, -, -, ho, hv⟩ := Expr.eval_eq_ok.mp hv
  cases o with
  | none => exact .inl ⟨s₂, hv⟩
  | some u => cases hv; exact .inr (evalSwitch_result ho)

theorem eval_typeswitch_eq_ok {e : Expr} {cs : List (CaseHead × Expr)} {span : Span}
    (hv : (Expr.typeswitch e cs span).eval h c s = (.ok v, s')) :
    ∃ u s₁, e.eval h c s = (.ok u, s₁) ∧ ∃ p ∈ cs, p.1.admits u = true ∧
      ∃ s₂ s₃, p.2.eval h (p.1.bind u c) s₂ = (.ok v, s₃) := by
  obtain ⟨u, s₁, hu, hv⟩ := Expr.eval_eq_ok.mp hv
  exact ⟨u, s₁, hu, evalTypeswitch_result hv⟩

/-- A node that has an answer of its own, whatever its parts yield. -/
def Expr.Answers : Expr → Prop
  | .call .not _ _ => True
  | .compare _ _ _ _ => True
  | .range _ _ _ => True
  | .position _ _ _ => True
  | .failing _ _ _ => True
  | _ => False

theorem Expr.Answers.eval_ofBool {e : Expr} (hv : e.eval h c s = (.ok v, s')) (he : e.Answers) :
    ∃ b, v = .ofBool b := by
  cases e with
  | call fn e span =>
    cases fn with
    | boolean => exact he.elim
    | not =>
      obtain ⟨b, -, rfl⟩ := eval_call_eq_ok.mp hv
      exact ⟨_, rfl⟩
  | compare op l r span =>
    obtain ⟨_, _, _, -, -, hb⟩ := Expr.eval_eq_ok.mp hv
    obtain ⟨b, -, rfl⟩ := Except.map_ofBool.mp hb
    exact ⟨b, rfl⟩
  | range b e span =>
    obtain ⟨_, -, hb⟩ := Expr.eval_eq_ok.mp hv
    obtain ⟨b, -, rfl⟩ := Except.map_ofBool.mp hb
    exact ⟨b, rfl⟩
  | position a b span =>
    obtain ⟨-, f, -, rfl⟩ := Expr.eval_eq_ok.mp hv
    exact ⟨_, rfl⟩
  | failing cause t span => cases hv
  | _ => exact he.elim

end

/-! ## Types -/

theorem SeqType.anyItems_admits (v : Value) : SeqType.anyItems.admits v = true := by
  refine SeqType.admits_iff.mpr ⟨rfl, fun i _ => ?_⟩
  cases i <;> rfl

theorem ofTruth_admits (b : Truth) : SeqType.booleanOne.admits (.ofTruth b) = true := rfl

/-- What an expression yields is an instance of its static type. -/
theorem Expr.eval_admits (hV : V.Sound D h) {e : Expr} (he : e.Over V) {c : Context}
    (hc : c.Conforms D) {s s' : σ} {v : Value} (hv : e.eval h c s = (.ok v, s')) :
    e.type.admits v = true := by
  induction e generalizing c s s' v with
  | connective k es span =>
    cases k with
    | conjunction => obtain ⟨b, rfl⟩ := evalAll_boolean hv; exact ofTruth_admits b
    | disjunction => obtain ⟨b, rfl⟩ := evalAny_boolean hv; exact ofTruth_admits b
  | switch e cs d span _ ihcs ihd =>
    obtain ⟨-, -, hcs, hd⟩ := Expr.every_switch.mp he
    refine switchType_admits ?_
    rcases eval_switch_eq_ok hv with ⟨s₁, hv⟩ | ⟨p, hp, s₁, s₂, hr⟩
    · exact .inl (ihd hd hc hv)
    · exact .inr ⟨p, hp, (ihcs p hp).2 (hcs p hp).2 hc hr⟩
  | typeswitch e cs span _ ihcs =>
    obtain ⟨hn, -, hcs⟩ := Expr.every_typeswitch.mp he
    obtain ⟨u, s₁, -, p, hp, hadm, s₂, s₃, hr⟩ := eval_typeswitch_eq_ok hv
    refine typeswitchType_admits (.inr ⟨p, hp, ihcs p hp (hcs p hp) ?_ hr⟩)
    unfold CaseHead.bind
    split
    · exact hc
    · rename_i x hx
      exact hc.bind fun t ht => hV.binds hn hp hx hadm ht
  | cast e t span _ =>
    obtain ⟨u, -, hu⟩ := Expr.eval_eq_ok.mp hv
    exact SeqType.castTarget_admits (hV.target (Expr.every_cast.mp he).1) hu
  | call fn e span _ =>
    obtain ⟨b, -, rfl⟩ := eval_call_eq_ok.mp hv
    cases fn <;> exact ofTruth_admits _
  | compare op l r span _ _ =>
    obtain ⟨b, rfl⟩ := Answers.eval_ofBool hv trivial
    exact ofTruth_admits _
  | range b e span _ =>
    obtain ⟨b, rfl⟩ := Answers.eval_ofBool hv trivial
    exact ofTruth_admits _
  | position a b span =>
    obtain ⟨b, rfl⟩ := Answers.eval_ofBool hv trivial
    exact ofTruth_admits _
  | literal w => cases hv; exact Value.admits_type _
  | var x span =>
    have hx := hV.var (Expr.every_var.mp he)
    unfold Expr.type Var.seqType
    rw [hx]
    cases hD : D x.id with
    | none => exact SeqType.anyItems_admits _
    | some t => exact hc _ _ t ((Expr.eval_eq_ok.mp hv).2) hD
  | external fn es tail span _ =>
    obtain ⟨vs, s₁, -, hi⟩ := Expr.eval_eq_ok.mp hv
    exact hV.fn (Expr.every_external.mp he).1 hi
  | failing t type span => cases hv

end

end QueryExpr
