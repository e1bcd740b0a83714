import QueryExpr.Eval

/-!
# QueryExpr.Proofs.Steps

Evaluation as a row of steps: each goes on with the value of the one before, in the state that this
one leaves, and an error ends the row.

* `onward`       — goes on with the value of an outcome.
* `onward_eq_ok` — a row of steps yields what its last step yields on the values of the others.
* `ebv_steps`, `evalAll_steps`, `eval_switch_steps` … — the equations of evaluation in this form.
-/

namespace QueryExpr

/-- Goes on with the value of an outcome, in the state that is left. -/
def onward {σ α β : Type} (x : Except EvalError α × σ) (f : α → σ → Except EvalError β × σ) :
    Except EvalError β × σ :=
  match x with
  | (.error t, s) => (.error t, s)
  | (.ok a, s) => f a s

/-- The context in which the result of a case is evaluated. -/
def CaseHead.bind (head : CaseHead) (v : Value) (c : Context) : Context :=
  match head.var with
  | none => c
  | some x => c.bind x.id v

/-! ## Rows of steps -/

section
variable {σ α β : Type}

@[simp] theorem onward_ok (a : α) (s : σ) (f : α → σ → Except EvalError β × σ) :
    onward (.ok a, s) f = f a s := rfl

@[simp] theorem onward_error (t : EvalError) (s : σ) (f : α → σ → Except EvalError β × σ) :
    onward (.error t, s) f = (.error t, s) := rfl

theorem onward_assoc {γ : Type} (x : Except EvalError α × σ) (f : α → σ → Except EvalError β × σ)
    (g : β → σ → Except EvalError γ × σ) :
    onward (onward x f) g = onward x fun a s => onward (f a s) g := by
  rcases x with ⟨_ | a, s⟩ <;> rfl

/-- What a row of steps yields comes from what its first step yields. -/
theorem onward_eq_ok {x : Except EvalError α × σ} {f : α → σ → Except EvalError β × σ} {b : β}
    {s' : σ} : onward x f = (.ok b, s') ↔ ∃ a s, x = (.ok a, s) ∧ f a s = (.ok b, s') := by
  rcases x with ⟨_ | a, s⟩
  · simp
  · constructor
    · exact fun h => ⟨a, s, rfl, h⟩
    · rintro ⟨_, _, hx, h⟩
      cases hx
      exact h

/-- A test in the middle of a row leaves the state as it is. -/
theorem onward_test_eq_ok {x : Except EvalError α} {s : σ} {f : α → σ → Except EvalError β × σ}
    {b : β} {s' : σ} : onward (x, s) f = (.ok b, s') ↔ ∃ a, x = .ok a ∧ f a s = (.ok b, s') := by
  cases x <;> simp

/-- So does a test at the end. -/
theorem onward_last_eq_ok {x : Except EvalError α × σ} {f : α → Except EvalError β} {b : β}
    {s' : σ} : onward x (fun a s => (f a, s)) = (.ok b, s') ↔
      ∃ a, x = (.ok a, s') ∧ f a = .ok b := by
  rw [onward_eq_ok]
  constructor
  · rintro ⟨a, _, hx, heq⟩
    obtain ⟨hb, rfl⟩ := Prod.mk.inj heq
    exact ⟨a, hx, hb⟩
  · rintro ⟨a, hx, hb⟩
    exact ⟨a, s', hx, by rw [hb]⟩

end

/-! ## Evaluation -/

section
variable {σ : Type} {h : Host σ} {c : Context}

attribute [local simp] Expr.eval evalAll evalAny evalSwitch evalTypeswitch evalArgs

theorem ebv_steps (e : Expr) (s : σ) :
    e.ebv h c s = onward (e.eval h c s) fun v s => (v.ebv e.span, s) := by
  rw [Expr.ebv]
  rcases e.eval h c s with ⟨_ | v, s⟩ <;> rfl

/-- A conjunction asks for the effective boolean value of its first operand, and then for the
rest. -/
theorem evalAll_steps (e : Expr) (es : List Expr) (score : Score) (s : σ) :
    evalAll h (e :: es) c score s =
      onward (h.check s) fun _ s => onward (e.ebv h c s) fun b s =>
        if b.value then evalAll h es c (if c.scoring then score.both b.score else score) s
        else (.ok (.ofBool false), s) := by
  rcases hs : h.check s with ⟨_ | _, s₁⟩
  · simp [hs]
  · rcases he : e.eval h c s₁ with ⟨_ | v, s₂⟩
    · simp [hs, ebv_steps, he]
    · cases hb : v.ebv e.span <;> simp [hs, ebv_steps, he, hb]

/-- The same for a disjunction. -/
theorem evalAny_steps (e : Expr) (es : List Expr) (score : Option Score) (s : σ) :
    evalAny h (e :: es) c score s =
      onward (h.check s) fun _ s => onward (e.ebv h c s) fun b s =>
        if b.value then
          if b.score.isZero || !c.scoring then (.ok (.ofBool true), s)
          else evalAny h es c (some ((score.getD .zero).either b.score)) s
        else evalAny h es c score s := by
  rcases hs : h.check s with ⟨_ | _, s₁⟩
  · simp [hs]
  · rcases he : e.eval h c s₁ with ⟨_ | v, s₂⟩
    · simp [hs, ebv_steps, he]
    · cases hb : v.ebv e.span <;> simp [hs, ebv_steps, he, hb]

theorem evalSwitch_steps (i : Option Item) (span : Span) (v r : Expr) (cs : List (Expr × Expr))
    (s : σ) :
    evalSwitch h i span ((v, r) :: cs) c s =
      onward (h.check s) fun _ s => onward (v.eval h c s) fun w s =>
        onward (w.single? span, s) fun j s =>
          if matchesCase i j then onward (r.eval h c s) fun w s => (.ok (some w), s)
          else evalSwitch h i span cs c s := by
  rcases hs : h.check s with ⟨_ | _, s₁⟩
  · simp [hs]
  · rcases hv : v.eval h c s₁ with ⟨_ | w, s₂⟩
    · simp [hs, hv]
    · cases hj : w.single? span with
      | error t => simp [hs, hv, hj]
      | ok j =>
        rcases hr : r.eval h c s₂ with ⟨_ | w, s₃⟩ <;> simp [hs, hv, hj, hr]

theorem evalTypeswitch_steps (v : Value) (span : Span) (p : CaseHead × Expr)
    (cs : List (CaseHead × Expr)) (s : σ) :
    evalTypeswitch h v span (p :: cs) c s =
      onward (h.check s) fun _ s =>
        if p.1.admits v then p.2.eval h (p.1.bind v c) s else evalTypeswitch h v span cs c s := by
  unfold CaseHead.bind
  rcases hs : h.check s with ⟨_ | _, s₁⟩
  · simp [hs]
  · cases hx : p.1.var <;> simp [hs, hx]

theorem evalArgs_steps (e : Expr) (es : List Expr) (s : σ) :
    evalArgs h (e :: es) c s =
      onward (h.check s) fun _ s => onward (e.eval h c s) fun v s =>
        onward (evalArgs h es c s) fun vs s => (.ok (v :: vs), s) := by
  rcases hs : h.check s with ⟨_ | _, s₁⟩
  · simp [hs]
  · rcases he : e.eval h c s₁ with ⟨_ | v, s₂⟩
    · simp [hs, he]
    · rcases hes : evalArgs h es c s₂ with ⟨_ | vs, s₃⟩ <;> simp [hs, he, hes]

theorem eval_switch_steps (e d : Expr) (cs : List (Expr × Expr)) (span : Span) (s : σ) :
    (Expr.switch e cs d span).eval h c s =
      onward (e.eval h c s) fun v s => onward (v.single? span, s) fun i s =>
        onward (evalSwitch h i span cs c s) fun o s =>
          o.elim (d.eval h c s) fun w => (.ok w, s) := by
  rcases he : e.eval h c s with ⟨_ | v, s₁⟩
  · simp [he]
  · cases hi : v.single? span with
    | error t => simp [he, hi]
    | ok i => rcases ho : evalSwitch h i span cs c s₁ with ⟨_ | _ | w, s₂⟩ <;> simp [he, hi, ho]

theorem eval_typeswitch_steps (e : Expr) (cs : List (CaseHead × Expr)) (span : Span) (s : σ) :
    (Expr.typeswitch e cs span).eval h c s =
      onward (e.eval h c s) fun v s => evalTypeswitch h v span cs c s := by
  rcases he : e.eval h c s with ⟨_ | v, s₁⟩ <;> simp [he]

theorem eval_cast_steps (e : Expr) (t : SeqType) (span : Span) (s : σ) :
    (Expr.cast e t span).eval h c s = onward (e.eval h c s) fun v s => (v.cast t span, s) := by
  rcases he : e.eval h c s with ⟨_ | v, s₁⟩ <;> simp [he]

theorem eval_call_steps (fn : Builtin) (e : Expr) (span : Span) (s : σ) :
    (Expr.call fn e span).eval h c s =
      onward (e.ebv h c s) fun b s =>
        (.ok (match fn with | .boolean => .ofTruth b | .not => .ofBool !b.value), s) := by
  rcases he : e.eval h c s with ⟨_ | v, s₁⟩
  · simp [ebv_steps, he]
  · cases hb : v.ebv e.span with
    | error t => simp [ebv_steps, he, hb]
    | ok b => cases fn <;> simp [ebv_steps, he, hb]

theorem eval_compare_steps (op : CompareOp) (l r : Expr) (span : Span) (s : σ) :
    (Expr.compare op l r span).eval h c s =
      onward (l.eval h c s) fun v s => onward (r.eval h c s) fun w s =>
        ((v.compare op span w).map .ofBool, s) := by
  rcases hl : l.eval h c s with ⟨_ | v, s₁⟩
  · simp [hl]
  · rcases hr : r.eval h c s₁ with ⟨_ | w, s₂⟩ <;> simp [hl, hr]

theorem eval_range_steps (b : Bounds) (e : Expr) (span : Span) (s : σ) :
    (Expr.range b e span).eval h c s =
      onward (e.eval h c s) fun v s => ((b.test span v).map .ofBool, s) := by
  rcases he : e.eval h c s with ⟨_ | v, s₁⟩ <;> simp [he]

theorem eval_external_steps (fn : ExternalFn) (es : List Expr) (tail : Bool) (span : Span) (s : σ) :
    (Expr.external fn es tail span).eval h c s =
      onward (evalArgs h es c s) fun vs s => h.invoke fn vs ⟨tail, span⟩ s := by
  rcases hes : evalArgs h es c s with ⟨_ | vs, s₁⟩ <;> simp [hes]

end

end QueryExpr
