import QueryExpr.Proofs.Alike
import QueryExpr.Proofs.Zeros

/-!
# QueryExpr.Proofs.Congruence

Structural equality of expressions and what they yield.

* `Concur`          — two outcomes are values in a relation, or neither is a value.
* `Host.Congruent`  — functions yield like results for equal arguments.
* `Expr.Abreast`    — a property of all corresponding nodes of two expressions, each in the contexts
  in which a host may evaluate it.
* `Expr.Untelling`  — zeros of different signs reach no casts to text that correspond.
* `Expr.eval_like`  — with this throughout, equal expressions yield like values.

Equality of numbers does not see the sign of a zero, and nothing that is done to a value does,
except for its conversion to text.
-/

namespace QueryExpr

/-! ## Outcomes -/

/-- Both outcomes are values in a relation, or neither is a value. -/
inductive Concur {α β : Type} (r : α → β → Prop) :
    Except EvalError α → Except EvalError β → Prop where
  | ok {a : α} {b : β} : r a b → Concur r (.ok a) (.ok b)
  | error (t u : EvalError) : Concur r (.error t) (.error u)

namespace Concur

variable {α β γ δ : Type}

theorem imp {r r' : α → β → Prop} (hr : ∀ a b, r a b → r' a b) {x : Except EvalError α}
    {y : Except EvalError β} (h : Concur r x y) : Concur r' x y := by
  cases h with
  | ok hab => exact .ok (hr _ _ hab)
  | error t u => exact .error t u

/-- Outcomes that a function makes equal, but for their errors. -/
theorem of_map {f : α → γ} {x y : Except EvalError α} (h : x.toOption.map f = y.toOption.map f) :
    Concur (fun a b => f a = f b) x y := by
  cases x with
  | error t =>
    cases y with
    | error u => exact .error t u
    | ok b => cases h
  | ok a =>
    cases y with
    | error u => cases h
    | ok b => exact .ok (Option.some.inj h)

theorem of_rel {r : α → β → Prop} {x : Except EvalError α} {y : Except EvalError β}
    (h : Option.Rel r x.toOption y.toOption) : Concur r x y := by
  cases x with
  | error t =>
    cases y with
    | error u => exact .error t u
    | ok b => cases h
  | ok a =>
    cases y with
    | error u => cases h
    | ok b =>
      cases h with
      | some hab => exact .ok hab

/-- Outcomes that agree on a truth value, as values. -/
theorem decided {x y : Except EvalError Bool} (h : Concur Eq x y) :
    Concur (fun v w : Value => v.canon = w.canon) (x.map .ofBool) (y.map .ofBool) := by
  cases h with
  | ok hab => exact .ok (congrArg (fun b => (Value.ofBool b).canon) hab)
  | error t u => exact .error t u

end Concur

theorem Concur.onward {σ τ α β γ δ : Type} {r : α → β → Prop} {r' : γ → δ → Prop}
    {x : Except EvalError α × σ} {y : Except EvalError β × τ} (h : Concur r x.1 y.1)
    {f : α → σ → Except EvalError γ × σ} {g : β → τ → Except EvalError δ × τ}
    (hfg : ∀ a b s t, x = (.ok a, s) → y = (.ok b, t) → r a b → Concur r' (f a s).1 (g b t).1) :
    Concur r' (QueryExpr.onward x f).1 (QueryExpr.onward y g).1 := by
  obtain ⟨x, s⟩ := x
  obtain ⟨y, t⟩ := y
  cases h with
  | ok hab => exact hfg _ _ s t rfl rfl hab
  | error u v => exact .error u v

/-! ## Tests and conversions -/

namespace Value

variable {v v' w w' : Value}

theorem admits_of_canon (h : v.canon = w.canon) (t : SeqType) : t.admits v = t.admits w := by
  have hv := Item.canon_untold.admits t v
  have hw := Item.canon_untold.admits t w
  rw [← hv, ← hw]
  exact congrArg t.admits h

theorem ebv_concur (h : v.canon = w.canon) (span span' : Span) :
    Concur (fun a b : Truth => a.canon = b.canon) (v.ebv span) (w.ebv span') := by
  refine .of_map ?_
  rw [ebv_grade, ebv_grade, ← grade?_canon, h, grade?_canon]

theorem single_concur (h : v.canon = w.canon) (span span' : Span) :
    Concur (fun i j : Option Item => i.map Item.canon = j.map Item.canon) (v.single? span)
      (w.single? span') := by
  have hv := item?_map Item.canon v
  have hw := item?_map Item.canon w
  refine .of_map ?_
  rw [single_toOption, single_toOption, ← hv, ← hw]
  exact congrArg item? h

theorem compare_concur (hv : v.canon = v'.canon) (hw : w.canon = w'.canon) (op : CompareOp)
    (span span' : Span) : Concur Eq (v.compare op span w) (v'.compare op span' w') := by
  have hleft := Item.canon_untold.compare? op v w
  have hright := Item.canon_untold.compare? op v' w'
  refine .of_map (f := id) ?_
  rw [compare_toOption, compare_toOption, ← hleft, ← hright]
  exact congrArg₂ (fun v w => (compare? op v w).map id) hv hw

theorem test_concur {b b' : Bounds} (hb : b.same b' = true) (h : v.canon = w.canon)
    (span span' : Span) : Concur Eq (b.test span v) (b'.test span' w) := by
  have hv := Item.canon_untold.test? b' v
  have hw := Item.canon_untold.test? b' w
  refine .of_map (f := id) ?_
  rw [Bounds.test_toOption, Bounds.test_toOption, Bounds.test?_of_same hb, ← hv, ← hw]
  exact congrArg (fun v => (b'.test? v).map id) h

/-- Conversions of values that are like both fail or yield like values, unless zeros of different
signs are converted to text. -/
theorem cast_concur (h : v.canon = w.canon) {t : SeqType}
    (hzeros : t.atom = .string ∨ t.atom = .untyped →
      ∀ i j, v = [i] → w = [j] → ¬i.OppositeZeros j) (span span' : Span) :
    Concur (fun v w : Value => v.canon = w.canon) (v.cast t span) (w.cast t span') := by
  cases v with
  | nil =>
    cases w with
    | nil =>
      simp only [Value.cast, single?]
      split
      · exact .ok rfl
      · exact .error _ _
    | cons j w => cases h
  | cons i v =>
    cases w with
    | nil => cases h
    | cons j w =>
      obtain ⟨hij, hrest⟩ := List.cons.inj h
      cases v with
      | nil =>
        cases w with
        | nil =>
          have hcast := Item.cast_of_canon hij fun htext => hzeros htext i j rfl rfl
          simp only [Value.cast, single?]
          rcases Except.cases_of_map_eq hcast with ⟨e, hx, hy⟩ | ⟨a, b, hx, hy, hab⟩
          · simp only [hx, hy]
            exact .error _ _
          · simp only [hx, hy]
            exact .ok (congrArg (fun i => [i]) hab)
        | cons l w => cases hrest
      | cons k v =>
        cases w with
        | nil => cases hrest
        | cons l w => exact .error _ _

/-- Zeros of different signs, which are like, are converted to texts that are not. -/
theorem cast_opposite {i j : Item} (h : i.OppositeZeros j) {t : SeqType}
    (htext : t.atom = .string ∨ t.atom = .untyped) (span span' : Span) :
    ¬Concur (fun v w : Value => v.canon = w.canon) (Value.cast [i] t span)
      (Value.cast [j] t span') := by
  have hne := Item.text_opposite h
  intro hconcur
  rcases htext with htext | htext
  · simp only [Value.cast, single?, htext, Item.cast] at hconcur
    cases hconcur with
    | ok heq => exact hne (Item.string.inj (List.cons.inj heq).1)
  · simp only [Value.cast, single?, htext, Item.cast] at hconcur
    cases hconcur with
    | ok heq => exact hne (Item.untyped.inj (List.cons.inj heq).1)

/-- Conversions of values that are like agree, or not, by the signs of zeros that are converted to
text alone. -/
theorem cast_concur_iff (h : v.canon = w.canon) (t : SeqType) (span span' : Span) :
    Concur (fun v w : Value => v.canon = w.canon) (v.cast t span) (w.cast t span') ↔
      (t.atom = .string ∨ t.atom = .untyped →
        ∀ i j, v = [i] → w = [j] → ¬i.OppositeZeros j) := by
  refine ⟨?_, fun hzeros => cast_concur h hzeros span span'⟩
  rintro hconcur htext i j rfl rfl hopposite
  exact cast_opposite hopposite htext span span' hconcur

end Value

/-! ## Contexts and hosts -/

/-- Two contexts that differ in nothing but bound values that are like. -/
structure Context.Like (c c' : Context) : Prop where
  lookup : ∀ id, (c.lookup id).map Value.canon = (c'.lookup id).map Value.canon
  focus : c.focus = c'.focus
  scoring : c.scoring = c'.scoring

theorem Context.like_self (c : Context) : c.Like c := ⟨fun _ => rfl, rfl, rfl⟩

theorem Context.Like.bind {c c' : Context} (hc : c.Like c') {v w : Value}
    (h : v.canon = w.canon) (id : Nat) : (c.bind id v).Like (c'.bind id w) where
  lookup id' := by
    rw [lookup_bind, lookup_bind]
    split
    · exact congrArg some h
    · exact hc.lookup id'
  focus := hc.focus
  scoring := hc.scoring

theorem Context.Like.bindCase {c c' : Context} (hc : c.Like c') {v w : Value}
    (h : v.canon = w.canon) {p q : CaseHead} (hpq : p.same q = true) :
    (p.bind v c).Like (q.bind w c') := by
  rw [CaseHead.bind_of_same hpq]
  unfold CaseHead.bind
  split
  · exact hc
  · exact hc.bind h _

/-- A function yields like results, or none, for two lists of arguments. -/
def Library.LikeAt (L : Library) (name : String) (vs ws : List Value) : Prop :=
  Option.Rel (fun v w : Value => v.like w = true) (L name vs) (L name ws)

/-- A host that is not cancelled, and whose deterministic functions depend on their names and
arguments only, and yield like results for arguments that are equal. -/
structure Host.Congruent {σ : Type} (h : Host σ) (L : Library) : Prop where
  poll : ∀ s, (h.poll s).1 = false
  invoke : ∀ fn vs info s, fn.deterministic = true →
    (h.invoke fn vs info s).1.toOption = L fn.name vs
  same : ∀ name vs ws, List.Forall₂ (fun v w : Value => v.same w = true) vs ws →
    L.LikeAt name vs ws

section
variable {σ : Type} {h : Host σ} {L : Library} {c c' : Context}

theorem Host.Congruent.check (hh : h.Congruent L) (s t : σ) :
    Concur (fun _ _ => True) (h.check s).1 (h.check t).1 := by
  have hok (s : σ) : (h.check s).1 = .ok () := by
    have hp := hh.poll s
    unfold Host.check
    split
    · rename_i heq; rw [heq] at hp; cases hp
    · rfl
  rw [hok, hok]
  exact .ok trivial

/-- Deterministic functions of one name yield like results for like arguments, if they do so when
not-a-number is among these. -/
theorem Host.Congruent.call (hh : h.Congruent L) {fn fn' : ExternalFn} (hname : fn.name = fn'.name)
    (hfn : fn.deterministic = true) (hfn' : fn'.deterministic = true) {vs ws : List Value}
    (hvs : List.Forall₂ (fun v w : Value => v.canon = w.canon) vs ws)
    (hnan : (∃ v ∈ vs, v.same v = false) → L.LikeAt fn.name vs ws) (info info' : CallInfo)
    (s t : σ) :
    Concur (fun v w : Value => v.canon = w.canon) (h.invoke fn vs info s).1
      (h.invoke fn' ws info' t).1 := by
  have hlike : L.LikeAt fn.name vs ws := by
    by_cases hself : ∃ v ∈ vs, v.same v = false
    · exact hnan hself
    · simp only [not_exists, not_and, Bool.not_eq_false] at hself
      refine hh.same fn.name vs ws (List.forall₂_iff_zip.mpr ⟨hvs.length_eq, ?_⟩)
      intro v w hvw
      have hlike : v.like w = true := Value.canon_eq_iff.mp (List.forall₂_zip hvs hvw)
      exact Value.same_of_like hlike (hself v (List.of_mem_zip hvw).1)
  refine .imp (fun _ _ => Value.canon_eq_iff.mpr) (.of_rel ?_)
  rw [hh.invoke fn vs info s hfn, hh.invoke fn' ws info' t hfn', ← hname]
  exact hlike

/-! ## Corresponding nodes -/

/-- A property of all corresponding nodes of two expressions, each in the contexts in which a host
may evaluate it. -/
inductive Expr.Abreast (h : Host σ) (N : Expr → Context → Expr → Context → Prop) :
    Expr → Context → Expr → Context → Prop where
  | connective {k k' : Connective} {es ds : List Expr} {s s' : Span} {c c' : Context} :
    N (.connective k es s) c (.connective k' ds s') c' →
    (∀ {e d}, (e, d) ∈ es.zip ds → e.Abreast h N c d c') →
    Abreast h N (.connective k es s) c (.connective k' ds s') c'
  | switch {e d o o' : Expr} {cs ds : List (Expr × Expr)} {s s' : Span} {c c' : Context} :
    N (.switch e cs o s) c (.switch d ds o' s') c' → e.Abreast h N c d c' →
    (∀ {p q}, (p, q) ∈ cs.zip ds → p.1.Abreast h N c q.1 c') →
    (∀ {p q}, (p, q) ∈ cs.zip ds → p.2.Abreast h N c q.2 c') → o.Abreast h N c o' c' →
    Abreast h N (.switch e cs o s) c (.switch d ds o' s') c'
  | typeswitch {e d : Expr} {cs ds : List (CaseHead × Expr)} {s s' : Span} {c c' : Context} :
    N (.typeswitch e cs s) c (.typeswitch d ds s') c' → e.Abreast h N c d c' →
    (∀ {r v r' t w t'}, e.eval h c r = (.ok v, r') → d.eval h c' t = (.ok w, t') →
      ∀ {p q}, (p, q) ∈ cs.zip ds → p.1.admits v = true →
        p.2.Abreast h N (p.1.bind v c) q.2 (q.1.bind w c')) →
    Abreast h N (.typeswitch e cs s) c (.typeswitch d ds s') c'
  | cast {e d : Expr} {t t' : SeqType} {s s' : Span} {c c' : Context} :
    N (.cast e t s) c (.cast d t' s') c' → e.Abreast h N c d c' →
    Abreast h N (.cast e t s) c (.cast d t' s') c'
  | call {fn fn' : Builtin} {e d : Expr} {s s' : Span} {c c' : Context} :
    N (.call fn e s) c (.call fn' d s') c' → e.Abreast h N c d c' →
    Abreast h N (.call fn e s) c (.call fn' d s') c'
  | compare {op op' : CompareOp} {l l' r r' : Expr} {s s' : Span} {c c' : Context} :
    N (.compare op l r s) c (.compare op' l' r' s') c' → l.Abreast h N c l' c' →
    r.Abreast h N c r' c' → Abreast h N (.compare op l r s) c (.compare op' l' r' s') c'
  | range {b b' : Bounds} {e d : Expr} {s s' : Span} {c c' : Context} :
    N (.range b e s) c (.range b' d s') c' → e.Abreast h N c d c' →
    Abreast h N (.range b e s) c (.range b' d s') c'
  | position {a b a' b' : Int64} {s s' : Span} {c c' : Context} :
    N (.position a b s) c (.position a' b' s') c' →
    Abreast h N (.position a b s) c (.position a' b' s') c'
  | literal {v w : Value} {c c' : Context} : N (.literal v) c (.literal w) c' →
    Abreast h N (.literal v) c (.literal w) c'
  | var {x y : Var} {s s' : Span} {c c' : Context} : N (.var x s) c (.var y s') c' →
    Abreast h N (.var x s) c (.var y s') c'
  | external {fn fn' : ExternalFn} {es ds : List Expr} {t t' : Bool} {s s' : Span}
    {c c' : Context} : N (.external fn es t s) c (.external fn' ds t' s') c' →
    (∀ {e d}, (e, d) ∈ es.zip ds → e.Abreast h N c d c') →
    Abreast h N (.external fn es t s) c (.external fn' ds t' s') c'
  | failing {cause cause' : CompileError} {t t' : SeqType} {s s' : Span} {c c' : Context} :
    N (.failing cause t s) c (.failing cause' t' s') c' →
    Abreast h N (.failing cause t s) c (.failing cause' t' s') c'

/-- Zeros of different signs are not converted to text at two casts, and the function of two calls
yields like results if not-a-number is among its arguments. -/
def Expr.Untelling (h : Host σ) (L : Library) : Expr → Context → Expr → Context → Prop
  | .cast e t _, c, .cast d _ _, c' => t.atom = .string ∨ t.atom = .untyped →
    ∀ r i r' s j s', e.eval h c r = (.ok [i], r') → d.eval h c' s = (.ok [j], s') →
      ¬i.OppositeZeros j
  | .external fn es _ _, c, .external _ ds _ _, c' =>
    ∀ r vs r' s ws s', evalArgs h es c r = (.ok vs, r') → evalArgs h ds c' s = (.ok ws, s') →
      (∃ v ∈ vs, v.same v = false) → L.LikeAt fn.name vs ws
  | _, _, _, _ => True

/-! ## Evaluation of lists -/

/-- Two expressions both fail or yield like values, each in a context of its own. -/
def LikeOn (h : Host σ) (c c' : Context) (e d : Expr) : Prop :=
  ∀ s t, Concur (fun v w : Value => v.canon = w.canon) (e.eval h c s).1 (d.eval h c' t).1

theorem LikeOn.ebv {e d : Expr} (he : LikeOn h c c' e d) (s t : σ) :
    Concur (fun a b : Truth => a.canon = b.canon) (e.ebv h c s).1 (d.ebv h c' t).1 := by
  rw [ebv_steps, ebv_steps]
  refine .onward (he s t) ?_
  intro v w _ _ _ _ hvw
  exact Value.ebv_concur hvw _ _

theorem evalAll_like (hh : h.Congruent L) (hc : c.Like c') {es ds : List Expr}
    (hes : List.Forall₂ (LikeOn h c c') es ds) {score score' : Score}
    (hscore : score.canon = score'.canon) (s t : σ) :
    Concur (fun v w : Value => v.canon = w.canon) (evalAll h es c score s).1
      (evalAll h ds c' score' t).1 := by
  induction hes generalizing score score' s t with
  | nil =>
    simp only [evalAll, Score.isZero_of_canon hscore]
    refine .ok ?_
    split
    · rfl
    · exact congrArg (fun r => Value.ofTruth (.scored r)) hscore
  | cons he _ ih =>
    rw [evalAll_steps, evalAll_steps]
    refine .onward (hh.check s t) ?_
    intro _ _ s₁ t₁ _ _ _
    refine .onward (he.ebv s₁ t₁) ?_
    intro a b s₂ t₂ _ _ hab
    obtain ⟨hvalue, hscored⟩ := Truth.of_canon hab
    rw [hvalue, hc.scoring]
    split
    · refine ih ?_ s₂ t₂
      split
      · exact Score.both_of_canon hscore hscored
      · exact hscore
    · exact .ok rfl

theorem evalAny_like (hh : h.Congruent L) (hc : c.Like c') {es ds : List Expr}
    (hes : List.Forall₂ (LikeOn h c c') es ds) {score score' : Option Score}
    (hscore : score.map Score.canon = score'.map Score.canon) (s t : σ) :
    Concur (fun v w : Value => v.canon = w.canon) (evalAny h es c score s).1
      (evalAny h ds c' score' t).1 := by
  induction hes generalizing score score' s t with
  | nil =>
    cases score with
    | none =>
      cases score' with
      | none => exact .ok rfl
      | some r => cases hscore
    | some r =>
      cases score' with
      | none => cases hscore
      | some r' =>
        exact .ok (congrArg (fun r => Value.ofTruth (.scored r)) (Option.some.inj hscore))
  | cons he _ ih =>
    rw [evalAny_steps, evalAny_steps]
    refine .onward (hh.check s t) ?_
    intro _ _ s₁ t₁ _ _ _
    refine .onward (he.ebv s₁ t₁) ?_
    intro a b s₂ t₂ _ _ hab
    obtain ⟨hvalue, hscored⟩ := Truth.of_canon hab
    rw [hvalue, hc.scoring, Score.isZero_of_canon hscored]
    split
    · split
      · exact .ok rfl
      · have hfirst : (score.getD .zero).canon = (score'.getD .zero).canon := by
          cases score <;> cases score' <;> first | rfl | exact Option.some.inj hscore | cases hscore
        refine ih ?_ s₂ t₂
        exact congrArg some (Score.either_of_canon hfirst hscored)
    · exact ih hscore s₂ t₂

theorem evalSwitch_like (hh : h.Congruent L) {i j : Option Item}
    (hij : i.map Item.canon = j.map Item.canon) (span span' : Span) {cs ds : List (Expr × Expr)}
    (hcs : List.Forall₂ (fun p q => LikeOn h c c' p.1 q.1 ∧ LikeOn h c c' p.2 q.2) cs ds)
    (s t : σ) :
    Concur (fun v w : Option Value => v.map Value.canon = w.map Value.canon)
      (evalSwitch h i span cs c s).1 (evalSwitch h j span' ds c' t).1 := by
  induction hcs generalizing s t with
  | nil => exact .ok rfl
  | cons hp _ ih =>
    rw [evalSwitch_steps, evalSwitch_steps]
    refine .onward (hh.check s t) ?_
    intro _ _ s₁ t₁ _ _ _
    refine .onward (hp.1 s₁ t₁) ?_
    intro v w s₂ t₂ _ _ hvw
    refine .onward (Value.single_concur hvw span span') ?_
    intro k l s₃ t₃ _ _ hkl
    rw [← Item.canon_untold.matchesCase i k, hij, hkl, Item.canon_untold.matchesCase]
    split
    · refine .onward (hp.2 s₃ t₃) ?_
      intro v w _ _ _ _ hvw
      exact .ok (congrArg some hvw)
    · exact ih s₃ t₃

theorem evalTypeswitch_like (hh : h.Congruent L) {v w : Value} (hvw : v.canon = w.canon)
    (span span' : Span) {cs ds : List (CaseHead × Expr)}
    (hcs : List.Forall₂ (fun p q => p.1.same q.1 = true ∧ (p.1.admits v = true →
      LikeOn h (p.1.bind v c) (q.1.bind w c') p.2 q.2)) cs ds) (s t : σ) :
    Concur (fun v w : Value => v.canon = w.canon) (evalTypeswitch h v span cs c s).1
      (evalTypeswitch h w span' ds c' t).1 := by
  induction hcs generalizing s t with
  | nil => exact .error _ _
  | @cons p q _ _ hp _ ih =>
    have hadmits : p.1.admits v = q.1.admits w := by
      rw [CaseHead.admits_of_same hp.1]
      unfold CaseHead.admits
      split
      · rfl
      · exact Value.admits_of_canon hvw _
    rw [evalTypeswitch_steps, evalTypeswitch_steps]
    refine .onward (hh.check s t) ?_
    intro _ _ s₁ t₁ _ _ _
    rw [← hadmits]
    split
    · rename_i hadm
      exact hp.2 hadm s₁ t₁
    · exact ih s₁ t₁

theorem evalArgs_like (hh : h.Congruent L) {es ds : List Expr}
    (hes : List.Forall₂ (LikeOn h c c') es ds) (s t : σ) :
    Concur (List.Forall₂ fun v w : Value => v.canon = w.canon) (evalArgs h es c s).1
      (evalArgs h ds c' t).1 := by
  induction hes generalizing s t with
  | nil => exact .ok .nil
  | cons he _ ih =>
    rw [evalArgs_steps, evalArgs_steps]
    refine .onward (hh.check s t) ?_
    intro _ _ s₁ t₁ _ _ _
    refine .onward (he s₁ t₁) ?_
    intro v w s₂ t₂ _ _ hvw
    refine .onward (ih s₂ t₂) ?_
    intro vs ws _ _ _ _ hvs
    exact .ok (.cons hvw hvs)

/-! ## Nodes -/

namespace LikeOn

variable {span span' : Span}

theorem connective (hh : h.Congruent L) (hc : c.Like c') (k : Connective) {es ds : List Expr}
    (hes : List.Forall₂ (LikeOn h c c') es ds) :
    LikeOn h c c' (.connective k es span) (.connective k ds span') := by
  intro s t
  cases k with
  | conjunction => exact evalAll_like hh hc hes rfl s t
  | disjunction => exact evalAny_like hh hc hes rfl s t

theorem switch (hh : h.Congruent L) {e d o o' : Expr} {cs ds : List (Expr × Expr)}
    (he : LikeOn h c c' e d)
    (hcs : List.Forall₂ (fun p q => LikeOn h c c' p.1 q.1 ∧ LikeOn h c c' p.2 q.2) cs ds)
    (ho : LikeOn h c c' o o') : LikeOn h c c' (.switch e cs o span) (.switch d ds o' span') := by
  intro s t
  rw [eval_switch_steps, eval_switch_steps]
  refine .onward (he s t) ?_
  intro v w s₁ t₁ _ _ hvw
  refine .onward (Value.single_concur hvw span span') ?_
  intro i j s₂ t₂ _ _ hij
  refine .onward (evalSwitch_like hh hij span span' hcs s₂ t₂) ?_
  intro x y s₃ t₃ _ _ hxy
  cases x with
  | none =>
    cases y with
    | none => exact ho s₃ t₃
    | some w => cases hxy
  | some v =>
    cases y with
    | none => cases hxy
    | some w => exact .ok (Option.some.inj hxy)

theorem typeswitch (hh : h.Congruent L) {e d : Expr} {cs ds : List (CaseHead × Expr)}
    (he : LikeOn h c c' e d)
    (hcs : ∀ {r v r' t w t'}, e.eval h c r = (.ok v, r') → d.eval h c' t = (.ok w, t') →
      v.canon = w.canon → List.Forall₂ (fun p q => p.1.same q.1 = true ∧ (p.1.admits v = true →
        LikeOn h (p.1.bind v c) (q.1.bind w c') p.2 q.2)) cs ds) :
    LikeOn h c c' (.typeswitch e cs span) (.typeswitch d ds span') := by
  intro s t
  rw [eval_typeswitch_steps, eval_typeswitch_steps]
  refine .onward (he s t) ?_
  intro v w s₁ t₁ hev hdw hvw
  exact evalTypeswitch_like hh hvw span span' (hcs hev hdw hvw) s₁ t₁

theorem cast {e d : Expr} {ty : SeqType} (he : LikeOn h c c' e d)
    (hzeros : (Expr.cast e ty span).Untelling h L c (.cast d ty span') c') :
    LikeOn h c c' (.cast e ty span) (.cast d ty span') := by
  intro s t
  rw [eval_cast_steps, eval_cast_steps]
  refine .onward (he s t) ?_
  intro v w s₁ t₁ hev hdw hvw
  refine (Value.cast_concur_iff hvw ty span span').mpr ?_
  rintro htext i j rfl rfl
  exact hzeros htext s i s₁ t j t₁ hev hdw

theorem call (fn : Builtin) {e d : Expr} (he : LikeOn h c c' e d) :
    LikeOn h c c' (.call fn e span) (.call fn d span') := by
  intro s t
  rw [eval_call_steps, eval_call_steps]
  refine .onward (he.ebv s t) ?_
  intro x y _ _ _ _ hxy
  cases fn with
  | boolean => exact .ok (congrArg Value.ofTruth hxy)
  | not =>
    rw [(Truth.of_canon hxy).1]
    exact .ok rfl

theorem compare (op : CompareOp) {l l' r r' : Expr} (hl : LikeOn h c c' l l')
    (hr : LikeOn h c c' r r') :
    LikeOn h c c' (.compare op l r span) (.compare op l' r' span') := by
  intro s t
  rw [eval_compare_steps, eval_compare_steps]
  refine .onward (hl s t) ?_
  intro v v' s₁ t₁ _ _ hv
  refine .onward (hr s₁ t₁) ?_
  intro w w' _ _ _ _ hw
  exact (Value.compare_concur hv hw op span span').decided

theorem range {b b' : Bounds} (hb : b.same b' = true) {e d : Expr} (he : LikeOn h c c' e d) :
    LikeOn h c c' (.range b e span) (.range b' d span') := by
  intro s t
  rw [eval_range_steps, eval_range_steps]
  refine .onward (he s t) ?_
  intro v w _ _ _ _ hvw
  exact (Value.test_concur hb hvw span span').decided

theorem position (hc : c.Like c') (a b : Int64) :
    LikeOn h c c' (.position a b span) (.position a b span') := by
  intro s t
  simp only [Expr.eval, hc.focus]
  cases c'.focus with
  | none => exact .error _ _
  | some p => exact .ok rfl

theorem var (hc : c.Like c') {x y : Var} (hid : x.id = y.id) :
    LikeOn h c c' (.var x span) (.var y span') := by
  have hlookup := hc.lookup x.id
  intro s t
  simp only [Expr.eval, ← hid]
  cases hx : c.lookup x.id with
  | none =>
    cases hy : c'.lookup x.id with
    | none => exact .error _ _
    | some w => rw [hx, hy] at hlookup; cases hlookup
  | some v =>
    cases hy : c'.lookup x.id with
    | none => rw [hx, hy] at hlookup; cases hlookup
    | some w => rw [hx, hy] at hlookup; exact .ok (Option.some.inj hlookup)

theorem external (hh : h.Congruent L) {fn fn' : ExternalFn} {es ds : List Expr} {tail tail' : Bool}
    (hname : fn.name = fn'.name) (hfn : fn.deterministic = true) (hfn' : fn'.deterministic = true)
    (hes : List.Forall₂ (LikeOn h c c') es ds)
    (hnan : (Expr.external fn es tail span).Untelling h L c (.external fn' ds tail' span') c') :
    LikeOn h c c' (.external fn es tail span) (.external fn' ds tail' span') := by
  intro s t
  rw [eval_external_steps, eval_external_steps]
  refine .onward (evalArgs_like hh hes s t) ?_
  intro vs ws s₁ t₁ hvs hws hargs
  exact hh.call hname hfn hfn' hargs (hnan s vs s₁ t ws t₁ hvs hws) _ _ s₁ t₁

end LikeOn

/-! ## Expressions -/

theorem forall₂_of_zip {α β : Type} {r r' : α → β → Prop} {as : List α} {bs : List β}
    (h : List.Forall₂ r as bs)
    (hr : ∀ a b, (a, b) ∈ as.zip bs → a ∈ as → b ∈ bs → r a b → r' a b) :
    List.Forall₂ r' as bs := by
  refine List.forall₂_iff_zip.mpr ⟨h.length_eq, ?_⟩
  intro a b hab
  obtain ⟨ha, hb⟩ := List.of_mem_zip hab
  exact hr a b hab ha hb (List.forall₂_zip h hab)

/-- Equal expressions that call deterministic functions only yield like values. -/
theorem Expr.Abreast.likeOn (hh : h.Congruent L) {a b : Expr}
    (hab : a.Abreast h (Expr.Untelling h L) c b c') (hsame : a.same b = true)
    (ha : a.Every IsDeterministic) (hb : b.Every IsDeterministic) (hc : c.Like c') :
    LikeOn h c c' a b := by
  induction hab with
  | @connective k k' es ds _ _ c c' _ _ ih =>
    simp only [Expr.same, Bool.and_eq_true, beq_iff_eq] at hsame
    obtain ⟨rfl, hsame⟩ := hsame
    have hes := (every_connective.mp ha).2
    have hds := (every_connective.mp hb).2
    have hlist := sameList_forall₂ hsame fun _ _ _ _ h => h
    exact .connective hh hc k (forall₂_of_zip hlist fun e d hp he hd h =>
      ih hp h (hes e he) (hds d hd) hc)
  | @switch e d o o' cs ds span span' c c' _ _ _ _ _ ihe ihv ihr iho =>
    simp only [Expr.same, Bool.and_eq_true] at hsame
    obtain ⟨-, hae, hacs, hao⟩ := every_switch.mp ha
    obtain ⟨-, hbd, hbds, hbo⟩ := every_switch.mp hb
    have hlist : List.Forall₂
        (fun p q : Expr × Expr => p.1.same q.1 = true ∧ p.2.same q.2 = true) cs ds :=
      sameCases_forall₂ hsame.1.2 fun _ _ _ _ h₁ h₂ => ⟨h₁, h₂⟩
    refine .switch hh (ihe hsame.1.1 hae hbd hc) ?_ (iho hsame.2 hao hbo hc)
    exact forall₂_of_zip hlist fun p q hp hpc hqd h =>
      ⟨ihv hp h.1 (hacs p hpc).1 (hbds q hqd).1 hc, ihr hp h.2 (hacs p hpc).2 (hbds q hqd).2 hc⟩
  | @typeswitch e d cs ds span span' c c' _ _ _ ihe ihr =>
    simp only [Expr.same, Bool.and_eq_true] at hsame
    obtain ⟨-, hae, hacs⟩ := every_typeswitch.mp ha
    obtain ⟨-, hbd, hbds⟩ := every_typeswitch.mp hb
    have hlist : List.Forall₂
        (fun p q : CaseHead × Expr => p.1.same q.1 = true ∧ p.2.same q.2 = true) cs ds :=
      sameTypeCases_forall₂ hsame.2 fun _ _ _ _ h₁ h₂ => ⟨h₁, h₂⟩
    refine .typeswitch hh (ihe hsame.1 hae hbd hc) ?_
    intro _ v _ _ w _ hev hdw hvw
    exact forall₂_of_zip hlist fun p q hp hpc hqd h =>
      ⟨h.1, fun hadm => ihr hev hdw hp hadm h.2 (hacs p hpc) (hbds q hqd) (hc.bindCase hvw h.1)⟩
  | @cast e d ty ty' _ _ c c' hzeros _ ih =>
    simp only [Expr.same, Bool.and_eq_true, beq_iff_eq] at hsame
    obtain ⟨hsame, rfl⟩ := hsame
    exact .cast (ih hsame (every_cast.mp ha).2 (every_cast.mp hb).2 hc) hzeros
  | @call fn fn' e d _ _ c c' _ _ ih =>
    simp only [Expr.same, Bool.and_eq_true, beq_iff_eq] at hsame
    obtain ⟨rfl, hsame⟩ := hsame
    exact .call fn (ih hsame (every_call.mp ha).2 (every_call.mp hb).2 hc)
  | @compare op op' l l' r r' _ _ c c' _ _ _ ihl ihr =>
    simp only [Expr.same, Bool.and_eq_true, beq_iff_eq] at hsame
    obtain ⟨⟨rfl, hl⟩, hr⟩ := hsame
    obtain ⟨-, hal, har⟩ := every_compare.mp ha
    obtain ⟨-, hbl, hbr⟩ := every_compare.mp hb
    exact .compare op (ihl hl hal hbl hc) (ihr hr har hbr hc)
  | @range b b' e d _ _ c c' _ _ ih =>
    simp only [Expr.same, Bool.and_eq_true] at hsame
    exact .range hsame.1 (ih hsame.2 (every_range.mp ha).2 (every_range.mp hb).2 hc)
  | @position i j i' j' _ _ c c' _ =>
    simp only [Expr.same, Bool.and_eq_true, beq_iff_eq] at hsame
    obtain ⟨rfl, rfl⟩ := hsame
    exact .position hc i j
  | literal _ =>
    intro s t
    exact .ok (Value.canon_eq_iff.mpr (Value.like_of_same hsame))
  | var _ => exact .var hc (by simpa [Expr.same, Var.same] using hsame)
  | @external fn fn' es ds _ _ _ _ c c' hnan _ ih =>
    simp only [Expr.same, Bool.and_eq_true, beq_iff_eq] at hsame
    obtain ⟨hname, hsame⟩ := hsame
    obtain ⟨hfn, hes⟩ := every_external.mp ha
    obtain ⟨hfn', hds⟩ := every_external.mp hb
    have hlist := sameList_forall₂ hsame fun _ _ _ _ h => h
    exact .external hh hname hfn hfn' (forall₂_of_zip hlist fun e d hp he hd h =>
      ih hp h (hes e he) (hds d hd) hc) hnan
  | failing _ =>
    intro s t
    exact .error _ _

/-- Structurally equal expressions without chance, in one context, both fail or yield like values,
if zeros of different signs reach no casts to text that correspond. -/
theorem Expr.eval_like (hh : h.Congruent L) {a b : Expr} (hsame : a.same b = true)
    (ha : a.isRandom = false) (hb : b.isRandom = false)
    (hab : a.Abreast h (Expr.Untelling h L) c b c) (s t : σ) :
    Concur (fun v w : Value => v.like w = true) (a.eval h c s).1 (b.eval h c t).1 := by
  have hlike : LikeOn h c c a b :=
    hab.likeOn hh hsame (every_deterministic ha) (every_deterministic hb) c.like_self
  exact (hlike s t).imp fun _ _ => Value.canon_eq_iff.mp

end

/-! ## Zeros of different signs -/

/-- The functions that yield their first argument. -/
def Library.first : Library := fun _ vs => vs.head?

theorem Library.first_congruent : first.host.Congruent first where
  poll _ := rfl
  invoke fn vs info s _ := first.host_steady.invoke fn vs info s
  same name vs ws h := by
    cases h with
    | nil => exact .none
    | cons hvw _ => exact .some (Value.like_of_same hvw)

/-- A call of a function with a zero of a sign. -/
def callOnZero (n : Bool) : Expr :=
  .external ⟨0, "first", .one .double, true⟩ [.literal [.double (.zero n)]] false .unknown

/-- Calls with zeros of different signs, one of which is compared to the other zero. -/
theorem Expr.eval_like_compared :
    Concur (fun v w : Value => v.like w = true)
      ((Expr.compare .eq (callOnZero true) (.literal [.double (.zero false)]) .unknown).eval
        Library.first.host (.empty true) ()).1
      ((Expr.compare .eq (callOnZero false) (.literal [.double (.zero false)]) .unknown).eval
        Library.first.host (.empty true) ()).1 := by
  refine Expr.eval_like Library.first_congruent (by decide) rfl rfl ?_ () ()
  refine .compare trivial (.external ?_ ?_) (.literal trivial)
  · rintro _ vs _ _ ws _ hvs - ⟨v, hv, hself⟩
    cases hvs
    rw [List.mem_singleton.mp hv] at hself
    exact absurd hself (by decide)
  · intro e d hp
    cases List.mem_singleton.mp hp
    exact .literal trivial

/-- Equal casts to strings of zeros of different signs yield strings that differ. -/
theorem Expr.eval_unlike_strings :
    let a := Expr.cast (.literal [.double (.zero false)]) (.one .string) .unknown
    let b := Expr.cast (.literal [.double (.zero true)]) (.one .string) .unknown
    a.same b = true ∧ a.isRandom = false ∧ b.isRandom = false ∧
      Library.first.host.Congruent Library.first ∧
      a.eval Library.first.host (.empty true) () = (.ok [.string "0"], ()) ∧
      b.eval Library.first.host (.empty true) () = (.ok [.string "-0"], ()) ∧
      Value.like [.string "0"] [.string "-0"] = false :=
  ⟨by decide, rfl, rfl, Library.first_congruent, rfl, rfl, by decide⟩

end QueryExpr
