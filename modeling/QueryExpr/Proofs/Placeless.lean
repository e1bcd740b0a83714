import QueryExpr.Error

/-!
# QueryExpr.Proofs.Placeless

Errors without the places where they arose.

* `EvalError.unplaced`, `CompileError.unplaced` — the same cause at no place. Errors are the same
  if and only if they are equal without places (`same_iff`).
* `SameResult`, `placeless` — the same for results that may be errors.
-/

namespace QueryExpr

mutual

/-- The same cause at no place. -/
def EvalError.unplaced : EvalError → EvalError
  | .type expected found _ => .type expected found .unknown
  | .ebv found _ => .ebv found .unknown
  | .noContext _ => .noContext .unknown
  | .unboundVariable name _ => .unboundVariable name .unknown
  | .deferred cause => .deferred cause.unplaced
  | .cast cause => .cast cause
  | .fileList path reason => .fileList path reason
  | .pattern pattern reason => .pattern pattern reason
  | .cancelled => .cancelled

def CompileError.unplaced : CompileError → CompileError
  | .typeMismatch expected found _ => .typeMismatch expected found .unknown
  | .invalidCastTarget target _ => .invalidCastTarget target .unknown
  | .malformedPattern pattern reason _ => .malformedPattern pattern reason .unknown
  | .arity name expected found _ => .arity name expected found .unknown
  | .missingDefaultCase _ => .missingDefaultCase .unknown
  | .eval cause => .eval cause.unplaced

end

mutual

theorem EvalError.same_iff {a b : EvalError} : a.same b = true ↔ a.unplaced = b.unplaced := by
  cases a with
  | deferred a =>
    cases b with
    | deferred b =>
      simpa [EvalError.same, EvalError.unplaced] using CompileError.same_iff (a := a) (b := b)
    | _ => simp [EvalError.same, EvalError.unplaced]
  | _ => cases b <;> simp [EvalError.same, EvalError.unplaced]

theorem CompileError.same_iff {a b : CompileError} :
    a.same b = true ↔ a.unplaced = b.unplaced := by
  cases a with
  | eval a =>
    cases b with
    | eval b =>
      simpa [CompileError.same, CompileError.unplaced] using EvalError.same_iff (a := a) (b := b)
    | _ => simp [CompileError.same, CompileError.unplaced]
  | _ => cases b <;> simp [CompileError.same, CompileError.unplaced, and_assoc]

end

/-- Two results are equal, or errors that are equal but for places. -/
def SameResult {α : Type} : Except EvalError α → Except EvalError α → Prop
  | .ok a, .ok b => a = b
  | .error t, .error u => t.same u = true
  | _, _ => False

/-- A result whose error is at no place. -/
def placeless {α : Type} (x : Except EvalError α) : Except EvalError α :=
  x.mapError EvalError.unplaced

section
variable {α : Type}

@[simp] theorem placeless_ok (a : α) : placeless (.ok a) = .ok a := rfl

@[simp] theorem placeless_error (t : EvalError) :
    placeless (.error t : Except EvalError α) = .error t.unplaced := rfl

theorem sameResult_iff {x y : Except EvalError α} :
    SameResult x y ↔ placeless x = placeless y := by
  cases x <;> cases y <;> simp [SameResult, EvalError.same_iff]

theorem toOption_placeless (x : Except EvalError α) : (placeless x).toOption = x.toOption := by
  cases x <;> rfl

/-- The two outcomes of a step. -/
theorem placeless_cases {σ : Type} {x : Except EvalError α × σ} {o : Except EvalError α}
    (h : placeless x.1 = o) :
    (∃ t s, x = (.error t, s) ∧ o = .error t.unplaced) ∨ ∃ v s, x = (.ok v, s) ∧ o = .ok v := by
  obtain ⟨r, s⟩ := x
  cases r with
  | error t => exact .inl ⟨t, s, rfl, h.symm⟩
  | ok v => exact .inr ⟨v, s, rfl, h.symm⟩

end

end QueryExpr
