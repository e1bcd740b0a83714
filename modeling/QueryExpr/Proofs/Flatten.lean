import QueryExpr.Proofs.Node

/-!
# QueryExpr.Proofs.Flatten

The first step of the optimiser of connectives: `Expr.flattened` is what it makes of one operand.
No operand is left that is a connective of the same kind or a call of `boolean`, the others are
kept in their order, and nothing grows.
-/

namespace QueryExpr

/-! ## Sizes -/

theorem sizeList_append (es fs : List Expr) : sizeList (es ++ fs) = sizeList es + sizeList fs := by
  induction es with
  | nil => simp [sizeList]
  | cons e es ih => simp only [List.cons_append, sizeList, ih]; omega

theorem sizeList_le_of_sublist {es fs : List Expr} (h : es.Sublist fs) :
    sizeList es ≤ sizeList fs := by
  induction h with
  | slnil => exact Nat.le_refl _
  | cons e _ ih => simp only [sizeList]; omega
  | cons_cons e _ ih => simp only [sizeList]; omega

theorem Expr.size_pos (e : Expr) : 0 < e.size := by
  cases e <;> simp only [Expr.size] <;> omega

section
variable {checks : Checks} {K : Known} {c : Connective} {span : Span}

theorem Rewrites.operands {es fs : List Expr} (h : OperandRule c span es fs) :
    Rewrites checks K (.connective c es span) (.ok (.connective c fs span)) :=
  .rule (.operands h)

/-! ## Flattening -/

/-- The operands among the pieces. -/
def operandsOf : List Piece → List Expr
  | [] => []
  | .event _ :: ps => operandsOf ps
  | .operand e :: ps => e :: operandsOf ps

theorem operandsOf_append (ps qs : List Piece) :
    operandsOf (ps ++ qs) = operandsOf ps ++ operandsOf qs := by
  induction ps with
  | nil => rfl
  | cons p ps ih => cases p <;> simp [operandsOf, ih]

@[simp] theorem operandsOf_events (es : List Event) : operandsOf (es.map .event) = [] := by
  induction es with
  | nil => rfl
  | cons e es ih => simpa [operandsOf] using ih

/-- The operands that flattening makes of one operand. -/
def Expr.flattened (c : Connective) (e : Expr) : List Expr := operandsOf (e.pieces c [])

/-- What is told on the way does not matter for the operands. -/
theorem operandsOf_pieces (c : Connective) (e : Expr) (after : List Event) :
    operandsOf (e.pieces c after) = e.flattened c := by
  induction e generalizing after with
  | connective c' es s =>
    simp only [Expr.flattened, Expr.pieces, operandsOf_append, operandsOf_events]
  | call fn arg s ih =>
    cases fn with
    | boolean =>
      show operandsOf (arg.pieces c _) = operandsOf (arg.pieces c _)
      rw [ih, ih]
    | not => simp only [Expr.flattened, Expr.pieces, operandsOf_append, operandsOf_events]
  | _ => simp only [Expr.flattened, Expr.pieces, operandsOf_append, operandsOf_events]

theorem operandsOf_piecesList (c : Connective) (es : List Expr) :
    operandsOf (pieces c es) = es.flatMap (·.flattened c) := by
  induction es with
  | nil => rfl
  | cons e es ih => simp only [pieces, operandsOf_append, ih, List.flatMap_cons]; rfl

theorem flattened_boolean (arg : Expr) (s : Span) :
    (Expr.call .boolean arg s).flattened c = arg.flattened c :=
  operandsOf_pieces c arg _

theorem flattened_same (es : List Expr) (s : Span) :
    (Expr.connective c es s).flattened c = es.flatMap (·.flattened c) := by
  simp [Expr.flattened, Expr.pieces, operandsOf, operandsOf_piecesList]

theorem flattened_other {e : Expr} (h : e.kind ≠ c.kind) (h' : e.kind ≠ .boolean) :
    e.flattened c = [e] := by
  cases e with
  | connective c' es s =>
    have hc : c' ≠ c := fun hc => h (by rw [hc]; rfl)
    simp [Expr.flattened, Expr.pieces, operandsOf, hc]
  | call fn arg s =>
    cases fn with
    | boolean => exact absurd rfl h'
    | not => rfl
  | _ => rfl

/-- A property of the operands of connectives and the arguments of `boolean` holds of all that
flattening leaves. -/
theorem flattened_induction {motive : Expr → List Expr → Prop}
    (boolean : ∀ arg s, motive arg (arg.flattened c) →
      motive (.call .boolean arg s) (arg.flattened c))
    (same : ∀ es s, (∀ e ∈ es, motive e (e.flattened c)) →
      motive (.connective c es s) (es.flatMap (·.flattened c)))
    (other : ∀ e, e.kind ≠ c.kind → e.kind ≠ .boolean → motive e [e]) (e : Expr) :
    motive e (e.flattened c) := by
  have hother (e : Expr) (h : e.kind ≠ c.kind) (h' : e.kind ≠ .boolean) :
      motive e (e.flattened c) := by
    rw [flattened_other h h']; exact other e h h'
  induction e with
  | connective c' es s ih =>
    by_cases hc : c' = c
    · subst hc; rw [flattened_same]; exact same es s ih
    · refine hother _ (fun h => ?_) (by cases c' <;> simp [Expr.kind, Connective.kind])
      obtain ⟨_, _, he⟩ := Expr.kind_eq_connective.mp h
      cases he; exact hc rfl
  | call fn arg s ih =>
    cases fn with
    | boolean => rw [flattened_boolean]; exact boolean arg s ih
    | not =>
      exact hother _ (by cases c <;> simp [Expr.kind, Connective.kind, Builtin.kind])
        (by simp [Expr.kind, Builtin.kind])
  | _ => exact hother _ (by cases c <;> simp [Expr.kind, Connective.kind]) (by simp [Expr.kind])

/-- Operands that can each be replaced in place can be replaced in a row. -/
theorem flatMap_rewrites {f : Expr → List Expr} {es : List Expr}
    (h : ∀ e ∈ es, ∀ ds fs, Rewrites checks K (.connective c (ds ++ e :: fs) span)
      (.ok (.connective c (ds ++ (f e ++ fs)) span))) (ds fs : List Expr) :
    Rewrites checks K (.connective c (ds ++ (es ++ fs)) span)
      (.ok (.connective c (ds ++ (es.flatMap f ++ fs)) span)) := by
  induction es generalizing ds with
  | nil => exact .refl
  | cons e es ih =>
    refine .trans (h e (List.mem_cons_self ..) ds (es ++ fs)) ?_
    have := ih (fun e he => h e (List.mem_cons_of_mem _ he)) (ds ++ f e)
    simpa [List.append_assoc] using this

theorem flattened_rewrites (e : Expr) (ds fs : List Expr) :
    Rewrites checks K (.connective c (ds ++ e :: fs) span)
      (.ok (.connective c (ds ++ (e.flattened c ++ fs)) span)) := by
  revert ds fs
  refine flattened_induction (motive := fun e gs => ∀ ds fs : List Expr,
    Rewrites checks K (.connective c (ds ++ e :: fs) span)
      (.ok (.connective c (ds ++ (gs ++ fs)) span))) ?_ ?_ ?_ e
  · intro arg s ih ds fs
    exact .trans (.operands .unwrap) (ih ds fs)
  · intro es s ih ds fs
    refine .trans (.operands .splice) ?_
    rw [List.append_assoc]
    exact flatMap_rewrites ih ds fs
  · intro e _ _ ds fs
    exact .refl

theorem flattened_flat (e : Expr) : ∀ d ∈ e.flattened c, d.kind ≠ c.kind ∧ d.kind ≠ .boolean := by
  refine flattened_induction
    (motive := fun _ gs => ∀ d ∈ gs, d.kind ≠ c.kind ∧ d.kind ≠ .boolean) ?_ ?_ ?_ e
  · intro arg s ih; exact ih
  · intro es s ih d hd
    obtain ⟨e, he, hde⟩ := List.mem_flatMap.mp hd
    exact ih e he d hde
  · intro e h h' d hd
    rw [List.mem_singleton.mp hd]; exact ⟨h, h'⟩

/-- What holds of all parts of an operand holds of all parts of what it is flattened to. -/
theorem flattened_every {q : Expr → Prop} {e : Expr} (he : e.Every q) :
    ∀ d ∈ e.flattened c, d.Every q := by
  revert he
  refine flattened_induction (motive := fun e gs => e.Every q → ∀ d ∈ gs, d.Every q) ?_ ?_ ?_ e
  · intro arg s ih he; exact ih (Expr.every_call.mp he).2
  · intro es s ih he d hd
    obtain ⟨e, hes, hde⟩ := List.mem_flatMap.mp hd
    exact ih e hes ((Expr.every_connective.mp he).2 e hes) d hde
  · intro e _ _ he d hd
    rw [List.mem_singleton.mp hd]; exact he

theorem flatMap_size {f : Expr → List Expr} {es : List Expr}
    (h : ∀ e ∈ es, sizeList (f e) ≤ e.size) : sizeList (es.flatMap f) ≤ sizeList es := by
  induction es with
  | nil => exact Nat.le_refl _
  | cons e es ih =>
    have h₁ := h e (List.mem_cons_self ..)
    have h₂ := ih fun e he => h e (List.mem_cons_of_mem _ he)
    simp only [List.flatMap_cons, sizeList_append, sizeList]; omega

theorem flattened_size (e : Expr) : sizeList (e.flattened c) ≤ e.size := by
  refine flattened_induction (motive := fun e gs => sizeList gs ≤ e.size) ?_ ?_ ?_ e
  · intro arg s ih; simp only [Expr.size]; omega
  · intro es s ih
    have : sizeList (es.flatMap (·.flattened c)) ≤ sizeList es := flatMap_size ih
    simp only [Expr.size]; omega
  · intro e _ _; simp [sizeList]

end

end QueryExpr
