import QueryExpr.Compile.Inline
import QueryExpr.Proofs.Rules

/-!
# QueryExpr.Proofs.Revising

What substitution does to one node.

* `inlined`   — what becomes of an operand whose errors are parked.
* `Revises`   — a node over revised parts.
* `InlinesTo` — a substitution puts the replacement for a variable, fails in what is evaluated
  first, or gives the node over its revised parts, optimised again if one of them has changed.
* `inlineWith_inlinesTo` — it does nothing else.
* `inlined_induction`    — so what holds of the replacement and of parked errors, and passes from
  the parts to the node and through the optimiser, holds of what is left of every expression.
-/

namespace QueryExpr

/-- The revision that stands for an operand of which an attempt was made. -/
def revisedAs (e : Expr) : Except CompileError (Revised Expr) → Revised Expr
  | .ok r => r
  | .error cause => ⟨.failing cause e.type e.span, true⟩

/-- Substitution in an operand whose errors are parked. -/
def inlined (sub : Substitution) (x : Var) (w : Expr) (e : Expr) : Revised Expr :=
  revisedAs e (inlineWith sub x w e).value

/-! ## Revised parts -/

/-- A node over revised parts, and whether one of them has changed. Of the operands of a connective
those behind a parked error may be left out. -/
inductive Revises (f : Expr → Revised Expr) : Expr → Expr → Bool → Prop where
  | connective {c : Connective} {es : List Expr} {span : Span} :
      Revises f (.connective c es span) (.connective c (es.map fun e => (f e).value) span)
        (es.any fun e => (f e).changed)
  | truncated {c : Connective} {es ds fs : List Expr} {t : CompileError} {type : SeqType}
      {s span : Span} :
      es.map (fun e => (f e).value) = ds ++ .failing t type s :: fs →
      Revises f (.connective c es span) (.connective c (ds ++ [.failing t type s]) span) true
  | switch {e d : Expr} {cs : List (Expr × Expr)} {span : Span} :
      Revises f (.switch e cs d span)
        (.switch (f e).value (cs.map fun p => ((f p.1).value, (f p.2).value)) (f d).value span)
        ((f e).changed || (cs.any fun p => (f p.1).changed || (f p.2).changed) || (f d).changed)
  | typeswitch {e : Expr} {cs : List (CaseHead × Expr)} {span : Span} :
      Revises f (.typeswitch e cs span)
        (.typeswitch (f e).value (cs.map fun p => (p.1, (f p.2).value)) span)
        ((f e).changed || cs.any fun p => (f p.2).changed)
  | cast {e : Expr} {t : SeqType} {span : Span} :
      Revises f (.cast e t span) (.cast (f e).value t span) (f e).changed
  | call {fn : Builtin} {e : Expr} {span : Span} :
      Revises f (.call fn e span) (.call fn (f e).value span) (f e).changed
  | compare {op : CompareOp} {l r : Expr} {span : Span} :
      Revises f (.compare op l r span) (.compare op (f l).value (f r).value span)
        ((f l).changed || (f r).changed)
  | range {b : Bounds} {e : Expr} {span : Span} :
      Revises f (.range b e span) (.range b (f e).value span) (f e).changed
  | external {fn : ExternalFn} {es : List Expr} {tail : Bool} {span : Span} :
      Revises f (.external fn es tail span)
        (.external fn (es.map fun e => (f e).value) tail span) (es.any fun e => (f e).changed)
  | position {a b : Int64} {span : Span} :
      Revises f (.position a b span) (.position a b span) false
  | literal {v : Value} : Revises f (.literal v) (.literal v) false
  | failing {t : CompileError} {type : SeqType} {span : Span} :
      Revises f (.failing t type span) (.failing t type span) false

namespace Revises

section
variable {f : Expr → Revised Expr} {e node : Expr} {changed : Bool}

/-- Where nothing has changed, no part has. -/
theorem unchanged (h : Revises f e node changed) (hb : changed = false) :
    ∀ d ∈ e.children, (f d).changed = false := by
  cases h with
  | connective => simpa [Expr.children] using hb
  | external => simpa [Expr.children] using hb
  | truncated => cases hb
  | switch =>
    simp only [Bool.or_eq_false_iff, List.any_eq_false, Bool.not_eq_true] at hb
    exact Expr.forall_children_switch.mpr ⟨hb.1.1, hb.1.2, hb.2⟩
  | typeswitch =>
    simp only [Bool.or_eq_false_iff, List.any_eq_false, Bool.not_eq_true] at hb
    exact Expr.forall_children_typeswitch.mpr hb
  | compare => simpa [Expr.children] using hb
  | cast => simpa [Expr.children] using hb
  | call => simpa [Expr.children] using hb
  | range => simpa [Expr.children] using hb
  | _ => simp [Expr.children]

/-- The parts are the revised parts, or some of them at the front. -/
theorem children (h : Revises f e node changed) :
    node.children <+: e.children.map fun d => (f d).value := by
  cases h with
  | @truncated c es ds fs t type s span hcut =>
    refine ⟨fs, ?_⟩
    simp only [Expr.children, hcut, List.append_assoc, List.singleton_append]
  | switch => simp [Expr.children, List.flatMap_map, List.map_flatMap]
  | typeswitch =>
    simp only [Expr.children, List.map_cons, List.map_map]
    exact List.prefix_rfl
  | _ => exact List.prefix_rfl

theorem parts (h : Revises f e node changed) :
    ∀ d ∈ node.children, ∃ d' ∈ e.children, d = (f d').value := by
  intro d hd
  obtain ⟨d', hd', rfl⟩ := List.mem_map.mp (h.children.subset hd)
  exact ⟨d', hd', rfl⟩

theorem kind (h : Revises f e node changed) : node.kind = e.kind := by
  cases h <;> rfl

/-- No reference is left if none is left in the parts. -/
theorem avoids {y : Var} (h : Revises f e node changed)
    (hf : ∀ d ∈ e.children, (f d).value.Avoids y) : node.Avoids y := by
  refine Expr.every_iff.mpr ⟨?_, fun d hd => ?_⟩
  · cases h <;> exact id
  · obtain ⟨d', hd', rfl⟩ := h.parts d hd
    exact hf d' hd'

/-- A node over parts that are the same is the same. -/
theorem same (h : Revises f e node changed) (hb : changed = false)
    (hf : ∀ d ∈ e.children, (f d).changed = false → (f d).value = d) : node = e := by
  have hsame : ∀ d ∈ e.children, (f d).value = d := fun d hd => hf d hd (h.unchanged hb d hd)
  have hrow {es : List Expr} (hes : ∀ d ∈ es, (f d).value = d) :
      es.map (fun e => (f e).value) = es := (List.map_congr_left hes).trans (List.map_id' es)
  cases h with
  | @connective c es span => exact congrArg (Expr.connective c · span) (hrow hsame)
  | @external fn es tail span => exact congrArg (Expr.external fn · tail span) (hrow hsame)
  | truncated => cases hb
  | @switch e d cs span =>
    obtain ⟨he, hcs, hd⟩ := Expr.forall_children_switch.mp hsame
    have hpair : ∀ p ∈ cs, ((f p.1).value, (f p.2).value) = id p := fun p hp =>
      Prod.ext (hcs p hp).1 (hcs p hp).2
    rw [he, hd, List.map_congr_left hpair, List.map_id]
  | @typeswitch e cs span =>
    obtain ⟨he, hcs⟩ := Expr.forall_children_typeswitch.mp hsame
    have hpair : ∀ p ∈ cs, (p.1, (f p.2).value) = id p := fun p hp => Prod.ext rfl (hcs p hp)
    rw [he, List.map_congr_left hpair, List.map_id]
  | cast => rw [hsame _ (List.mem_singleton_self _)]
  | call => rw [hsame _ (List.mem_singleton_self _)]
  | range => rw [hsame _ (List.mem_singleton_self _)]
  | @compare op l r span =>
    rw [hsame l (by simp [Expr.children]), hsame r (by simp [Expr.children])]
  | _ => rfl

/-- Revising parts by rewriting is rewriting. -/
theorem rewrites {checks : Checks} {K : Known} (h : Revises f e node changed)
    (hf : ∀ d ∈ e.children, Rewrites checks K d (.ok (f d).value)) :
    Rewrites checks K e (.ok node) := by
  cases h with
  | @connective c es span => exact Rewrites.row (isRow_connective c span) hf []
  | @truncated c es ds fs t type s span hcut =>
    have hall : Rewrites checks K (.connective c es span)
        (.ok (.connective c (es.map fun e => (f e).value) span)) :=
      Rewrites.row (isRow_connective c span) hf []
    rw [hcut] at hall
    exact .trans hall (.rule (.operands .unreached))
  | @switch e d cs span =>
    obtain ⟨he, hcs, hd⟩ := Expr.forall_children_switch.mp hf
    have h₁ := Rewrites.inside (.switchOperand cs d span) he
    have h₂ := Rewrites.inside (.switchDefault (f e).value cs span) hd
    have h₃ : Rewrites checks K (.switch (f e).value cs (f d).value span)
        (.ok (.switch (f e).value (cs.map fun p => ((f p.1).value, (f p.2).value)) (f d).value
          span)) := Rewrites.cases (f := fun e => (f e).value) hcs []
    exact .trans h₁ (.trans h₂ h₃)
  | @typeswitch e cs span =>
    obtain ⟨he, hcs⟩ := Expr.forall_children_typeswitch.mp hf
    have h₁ := Rewrites.inside (.typeOperand cs span) he
    have h₂ : Rewrites checks K (.typeswitch (f e).value cs span)
        (.ok (.typeswitch (f e).value (cs.map fun p => (p.1, (f p.2).value)) span)) :=
      Rewrites.typeCases (f := fun e => (f e).value) hcs []
    exact .trans h₁ h₂
  | cast => exact .inside (.castOperand _ _) (hf _ (List.mem_singleton_self _))
  | call => exact .inside (.callArgument _ _) (hf _ (List.mem_singleton_self _))
  | range => exact .inside (.rangeOperand _ _) (hf _ (List.mem_singleton_self _))
  | @compare op l r span =>
    have h₁ := Rewrites.inside (.left op r span) (hf l (by simp [Expr.children]))
    have h₂ := Rewrites.inside (.right op (f l).value span) (hf r (by simp [Expr.children]))
    exact .trans h₁ h₂
  | @external fn es tail span => exact Rewrites.row (isRow_external fn tail span) hf []
  | _ => exact .refl

end

end Revises

/-! ## Lists of parts -/

section
variable {sub : Substitution} {x : Var} {w : Expr}

theorem inlined_of_ok {e : Expr} {r : Revised Expr} (h : (inlineWith sub x w e).value = .ok r) :
    inlined sub x w e = r := by
  rw [inlined, h]; rfl

theorem parkedRevision_value (r : Attempt (Revised Expr)) (e : Expr) :
    (parkedRevision r e).value = revisedAs e r.value := by
  simp only [parkedRevision]
  split
  · rename_i h; rw [h]; rfl
  · rename_i h; rw [h]; rfl

theorem inlineRest_value (es : List Expr) :
    (inlineRest sub x w false es).value =
      ⟨es.map fun e => (inlined sub x w e).value, es.any fun e => (inlined sub x w e).changed⟩ := by
  induction es with
  | nil => rfl
  | cons e es ih =>
    simp only [inlineRest, List.map_cons, List.any_cons]
    split
    · rename_i t h; simp [inlined, h, revisedAs, ih]
    · rename_i r h; simp [inlined, h, revisedAs, ih]

/-- Operands are dropped behind a parked error only. -/
theorem inlineRest_truncated (sub : Substitution) (x : Var) (w : Expr) (es : List Expr) :
    (inlineRest sub x w true es).value = (inlineRest sub x w false es).value ∨
    ∃ ds t type s fs,
      (inlineRest sub x w false es).value.value = ds ++ .failing t type s :: fs ∧
      (inlineRest sub x w true es).value = ⟨ds ++ [.failing t type s], true⟩ := by
  induction es with
  | nil => exact .inl rfl
  | cons e es ih =>
    simp only [inlineRest]
    split
    · rename_i t _
      exact .inr ⟨[], t, e.type, e.span, (inlineRest sub x w false es).value.value, rfl, rfl⟩
    · rename_i r _
      rcases ih with h | ⟨ds, t, type, s, fs, h, h'⟩
      · exact .inl (by simp [h])
      · exact .inr ⟨r.value :: ds, t, type, s, fs, by simp [h], by simp [h']⟩

/-- Substitution in operands fails in the first of them, revises them all, or drops those behind a
parked error. -/
theorem inlineOperands_cases (sub : Substitution) (x : Var) (w : Expr) (truncate : Bool)
    (es : List Expr) :
    (∃ d ds t, es = d :: ds ∧ (inlineWith sub x w d).value = .error t ∧
      (inlineOperands sub x w truncate es).value = .error t) ∨
    (inlineOperands sub x w truncate es).value =
      .ok ⟨es.map fun e => (inlined sub x w e).value, es.any fun e => (inlined sub x w e).changed⟩ ∨
    ∃ ds t type s fs, truncate = true ∧
      es.map (fun e => (inlined sub x w e).value) = ds ++ .failing t type s :: fs ∧
      (inlineOperands sub x w truncate es).value = .ok ⟨ds ++ [.failing t type s], true⟩ := by
  cases es with
  | nil => exact .inr (.inl rfl)
  | cons e es =>
    simp only [inlineOperands]
    cases hr : (inlineWith sub x w e).value with
    | error t => exact .inl ⟨e, es, t, rfl, hr, Attempt.andThen_of_error hr _⟩
    | ok r =>
      right
      rw [Attempt.andThen_of_ok hr, List.map_cons, List.any_cons, inlined_of_ok hr]
      have hall := @inlineRest_value sub x w es
      cases truncate with
      | false => exact .inl (by simp [hall, Except.map])
      | true =>
        rcases inlineRest_truncated sub x w es with h | ⟨ds, t, type, s, fs, h, h'⟩
        · exact .inl (by simp [h, hall, Except.map])
        · rw [hall] at h
          have hcut : es.map (fun e => (inlined sub x w e).value) =
              ds ++ .failing t type s :: fs := h
          refine .inr ⟨r.value :: ds, t, type, s, fs, rfl, ?_, ?_⟩
          · rw [hcut, List.cons_append]
          · simp [h', Except.map]

theorem inlineCases_value (cs : List (Expr × Expr)) :
    (inlineCases sub x w cs).value =
      ⟨cs.map fun p => ((inlined sub x w p.1).value, (inlined sub x w p.2).value),
        cs.any fun p => (inlined sub x w p.1).changed || (inlined sub x w p.2).changed⟩ := by
  induction cs with
  | nil => rfl
  | cons p cs ih =>
    obtain ⟨a, b⟩ := p
    simp [inlineCases, parkedRevision_value, inlined, ih]

theorem inlineTypeCases_value (cs : List (CaseHead × Expr)) :
    (inlineTypeCases sub x w cs).value =
      ⟨cs.map fun p => (p.1, (inlined sub x w p.2).value),
        cs.any fun p => (inlined sub x w p.2).changed⟩ := by
  induction cs with
  | nil => rfl
  | cons p cs ih =>
    obtain ⟨head, r⟩ := p
    simp [inlineTypeCases, parkedRevision_value, inlined, ih]

end

/-! ## One node -/

/-- What a substitution may come to. -/
inductive InlinesTo (sub : Substitution) (x : Var) (w : Expr) :
    Expr → Except CompileError (Revised Expr) → Prop where
  | replaced {y : Var} {span : Span} :
      y.same x = true → InlinesTo sub x w (.var y span) (.ok ⟨w, true⟩)
  | kept {y : Var} {span : Span} :
      ¬ y.same x = true → InlinesTo sub x w (.var y span) (.ok ⟨.var y span, false⟩)
  | failed (F : Frame) {d : Expr} {t : CompileError} :
      F.IsFirst → (inlineWith sub x w d).value = .error t → InlinesTo sub x w (F.plug d) (.error t)
  | revised {e node : Expr} {changed : Bool} :
      Revises (inlined sub x w) e node changed →
      InlinesTo sub x w e (rebuilt sub changed node).value

section
variable {sub : Substitution} {x : Var} {w : Expr}

/-- The first part fails, or the rest goes on with what is inlined into it. -/
theorem InlinesTo.first {F : Frame} (hF : F.IsFirst) {d : Expr}
    {f : Revised Expr → Attempt (Revised Expr)}
    (h : InlinesTo sub x w (F.plug d) (f (inlined sub x w d)).value) :
    InlinesTo sub x w (F.plug d) ((inlineWith sub x w d).andThen f).value := by
  cases hr : (inlineWith sub x w d).value with
  | error t =>
    rw [Attempt.andThen_of_error hr]
    exact .failed F hF hr
  | ok r =>
    rw [Attempt.andThen_of_ok hr, ← inlined_of_ok hr]
    exact h

theorem inlineWith_inlinesTo (e : Expr) : InlinesTo sub x w e (inlineWith sub x w e).value := by
  cases e with
  | connective c es span =>
    simp only [inlineWith]
    rcases inlineOperands_cases sub x w true es with ⟨d, ds, t, rfl, ht, h⟩ | h |
      ⟨ds, t, type, s, fs, -, hcut, h⟩
    · rw [Attempt.andThen_of_error h]
      exact .failed (.operand c [] ds span) rfl ht
    · rw [Attempt.andThen_of_ok h]
      exact .revised .connective
    · rw [Attempt.andThen_of_ok h]
      exact .revised (.truncated hcut)
  | switch o cs d span =>
    refine .first (F := .switchOperand cs d span) trivial ?_
    simp only [Attempt.andThen_lift, inlineCases_value, parkedRevision_value]
    exact .revised .switch
  | typeswitch o cs span =>
    refine .first (F := .typeOperand cs span) trivial ?_
    simp only [Attempt.andThen_lift, inlineTypeCases_value]
    exact .revised .typeswitch
  | cast o t span => exact .first (F := .castOperand t span) trivial (.revised .cast)
  | call fn o span => exact .first (F := .callArgument fn span) trivial (.revised .call)
  | compare op l r span =>
    refine .first (F := .left op r span) trivial ?_
    simp only [Attempt.andThen_lift, parkedRevision_value]
    exact .revised .compare
  | range b o span => exact .first (F := .rangeOperand b span) trivial (.revised .range)
  | var y span =>
    simp only [inlineWith]
    split
    · rename_i hy; exact .replaced hy
    · rename_i hy; exact .kept hy
  | external fn es tail span =>
    simp only [inlineWith, Attempt.value_map]
    rcases inlineOperands_cases sub x w false es with ⟨d, ds, t, rfl, ht, h⟩ | h |
      ⟨ds, t, type, s, fs, hfalse, -⟩
    · rw [h]
      exact .failed (.argument fn [] ds tail span) rfl ht
    · -- There is no rule for a call, so optimising it again changes nothing.
      have hrebuilt (changed : Bool) (fs : List Expr) :
          (rebuilt sub changed (.external fn fs tail span)).value =
            .ok ⟨.external fn fs tail span, changed⟩ := by cases changed <;> rfl
      rw [h]
      have hrev : InlinesTo sub x w (.external fn es tail span) _ := .revised .external
      rwa [hrebuilt] at hrev
    · cases hfalse
  | position a b span => exact .revised .position
  | literal v => exact .revised .literal
  | failing t type span => exact .revised .failing

/-- A node that is optimised again is reported as changed. -/
theorem changed_of_rebuilt {e node : Expr} {changed : Bool}
    (h : (revisedAs e (rebuilt sub changed node).value).changed = false) : changed = false := by
  cases changed with
  | false => rfl
  | true =>
    simp only [rebuilt, if_true, Attempt.value_map] at h
    cases ho : (optimizeWith sub node).value with
    | error t => rw [ho] at h; cases h
    | ok e' => rw [ho] at h; cases h

/-- What is related to the replacement of a variable and to parked errors, to a node over related
parts and to what the optimiser makes of a related node, is related to what is left of an
expression. -/
theorem inlined_induction {P : Expr → Expr → Prop}
    (replaced : ∀ y span, y.same x = true → P (.var y span) w)
    (kept : ∀ y span, ¬ y.same x = true → P (.var y span) (.var y span))
    (parked : ∀ e t, P e (.failing t e.type e.span))
    (revised : ∀ e node changed, Revises (inlined sub x w) e node changed →
      (∀ d ∈ e.children, P d (inlined sub x w d).value) → P e node)
    (optimized : ∀ e node e', P e node → (optimizeWith sub node).value = .ok e' → P e e')
    (e : Expr) : P e (inlined sub x w e).value := by
  induction e using Expr.part_induction with
  | node e ih =>
    have h : InlinesTo sub x w e (inlineWith sub x w e).value := inlineWith_inlinesTo e
    rw [inlined]
    generalize (inlineWith sub x w e).value = r at h
    cases h with
    | replaced hy => exact replaced _ _ hy
    | kept hy => exact kept _ _ hy
    | failed F => exact parked _ _
    | @revised _ node changed hrev =>
      have hnode := revised e node changed hrev ih
      cases changed with
      | false => exact hnode
      | true =>
        simp only [rebuilt, if_true, Attempt.value_map]
        cases ho : (optimizeWith sub node).value with
        | error t => exact parked e t
        | ok e' => exact optimized e node e' hnode ho

end

end QueryExpr
