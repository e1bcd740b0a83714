import QueryExpr.Compile.Note

/-!
# QueryExpr.Proofs.Outcome

The values of noted results. Events never decide anything, so what is proved of compilation is
proved of values, and these equations take the events away.
-/

namespace QueryExpr

section
variable {α β : Type}

namespace Noted

@[simp] theorem value_of (a : α) : (Noted.of a).value = a := rfl

@[simp] theorem value_bind (x : Noted α) (f : α → Noted β) :
    (x.bind f).value = (f x.value).value := rfl

@[simp] theorem value_map (f : α → β) (x : Noted α) : (x.map f).value = f x.value := rfl

@[simp] theorem value_after (es : List Event) (x : Noted α) : (x.after es).value = x.value := rfl

end Noted

namespace Attempt

@[simp] theorem value_ok (a : α) : (Attempt.ok a).value = .ok a := rfl

@[simp] theorem value_fail (t : CompileError) : (Attempt.fail t : Attempt α).value = .error t := rfl

@[simp] theorem value_after (es : List Event) (x : Attempt α) : (x.after es).value = x.value := rfl

@[simp] theorem value_lift (x : Noted α) : (Attempt.lift x).value = .ok x.value := rfl

@[simp] theorem value_map (f : α → β) (x : Attempt α) : (x.map f).value = x.value.map f := rfl

theorem value_andThen (x : Attempt α) (f : α → Attempt β) :
    (x.andThen f).value = x.value.bind fun a => (f a).value := by
  simp only [andThen]
  split
  · rename_i t h; rw [h]; rfl
  · rename_i a h; rw [h]; rfl

theorem andThen_of_ok {x : Attempt α} {a : α} (h : x.value = .ok a) (f : α → Attempt β) :
    (x.andThen f).value = (f a).value := by
  rw [value_andThen, h]; rfl

theorem andThen_of_error {x : Attempt α} {t : CompileError} (h : x.value = .error t)
    (f : α → Attempt β) : (x.andThen f).value = .error t := by
  rw [value_andThen, h]; rfl

@[simp] theorem andThen_lift (x : Noted α) (f : α → Attempt β) :
    ((Attempt.lift x).andThen f).value = (f x.value).value := rfl

/-- An attempt that goes on has a result if and only if both parts have one. -/
theorem andThen_eq_ok {x : Attempt α} {f : α → Attempt β} {b : β} :
    (x.andThen f).value = .ok b ↔ ∃ a, x.value = .ok a ∧ (f a).value = .ok b := by
  cases h : x.value with
  | error t => simp [andThen_of_error h]
  | ok a => simp [andThen_of_ok h]

end Attempt

@[simp] theorem replaced_value (source : Kind) (span : Span) (e : Expr) :
    (replaced source span e).value = e := rfl

@[simp] theorem park_value (cause : CompileError) (span : Span) (type : SeqType) :
    (park cause span type).value = .failing cause type span := rfl

end

/-! ## Parked errors -/

/-- The node that stands for an operand of which an attempt was made. -/
def parkedAs (e : Expr) : Except CompileError Expr → Expr
  | .ok e' => e'
  | .error cause => .failing cause e.type e.span

@[simp] theorem parkedAs_ok (e e' : Expr) : parkedAs e (.ok e') = e' := rfl

@[simp] theorem parkedAs_error (e : Expr) (cause : CompileError) :
    parkedAs e (.error cause) = .failing cause e.type e.span := rfl

@[simp] theorem Attempt.parked_value (x : Attempt Expr) (e : Expr) :
    (x.parked e).value = parkedAs e x.value := by
  simp only [Attempt.parked]
  split
  · rename_i h; rw [h]; rfl
  · rename_i h; rw [h]; rfl

end QueryExpr
