import QueryExpr.Proofs.Live
import QueryExpr.Proofs.NormalForm
import QueryExpr.Proofs.RuleOrder
import QueryExpr.Proofs.Stepwise

/-!
# QueryExpr.Proofs.Shrinking

Compilation ends because expressions shrink.

* `optimizeConnective_eq_round` — the optimiser of connectives, without fuel: a round, and perhaps a
  call on the operands that the round has left, which are smaller (`connectiveStep_smaller`).
* `Stepwise.flatten_cons` — the same for the queue of operands; each turn leaves a smaller queue
  (`Stepwise.turn_smaller`).
* `Expr.NoLarger` — no more nodes than another expression, and typeswitches not nested deeper.
* `Expr.optimize_noLarger` — what the optimiser makes of a node, whatever its parts are.
* `optimize_shrinks` — all of this, and the same for compilation.

The depth of typeswitches is what the fuel of substitutions is for: where that runs out, a
typeswitch would be left that binds the variable, and this is larger.
-/

namespace QueryExpr

/-! ## Rounds -/

section
variable {α β : Type}

theorem Attempt.andThen_congr {x : Attempt α} {f g : α → Attempt β}
    (h : ∀ a, x.value = .ok a → f a = g a) : x.andThen f = x.andThen g := by
  simp only [andThen]
  split
  · rfl
  · rename_i a ha
    rw [h a ha]

end

/-- The connective on which the optimiser is called again after a round. -/
def Round.next? (k : Connective) (span : Span) : Round → Option Expr
  | .done _ => none
  | .again es => some (.connective k es span)
  | .negation es => some (.connective k.opposite es span)

/-- What is done after a round. -/
def Round.proceed (k : Connective) (span : Span) : Round → Attempt Expr
  | .done e => .ok e
  | .again es => optimizeConnective k es span
  | .negation es =>
    (optimizeConnective k.opposite es span).andThen fun e =>
      (optimizeNot e span).andThen fun e => .lift (replaced k.kind span e)

section
variable {k : Connective} {es : List Expr} {span : Span}

/-- More rounds than nodes make no difference. -/
theorem rounds_enough {fuel fuel' : Nat} (hf : sizeList es < fuel) (hf' : sizeList es < fuel') :
    rounds fuel k es span = rounds fuel' k es span := by
  -- What a round leaves is smaller, so one round less is enough for it.
  induction fuel generalizing fuel' k es with
  | zero => omega
  | succ fuel ih =>
    obtain ⟨fuel', rfl⟩ := Nat.exists_eq_add_one_of_ne_zero (Nat.ne_zero_of_lt hf')
    refine Attempt.andThen_congr fun r hr => ?_
    have hsmaller := connectiveStep_smaller hr
    cases r with
    | done e => rfl
    | again fs =>
      have hfs : sizeList fs < sizeList es := hsmaller
      exact ih (by omega) (by omega)
    | negation fs =>
      have hfs : sizeList fs < sizeList es := hsmaller
      have h : rounds fuel k.opposite fs span = rounds fuel' k.opposite fs span :=
        ih (by omega) (by omega)
      simp only [h]

/-- The optimiser of connectives without fuel. -/
theorem optimizeConnective_eq_round (k : Connective) (es : List Expr) (span : Span) :
    optimizeConnective k es span = (connectiveStep k es span).andThen (Round.proceed k span) := by
  refine Attempt.andThen_congr fun r hr => ?_
  have hsmaller := connectiveStep_smaller hr
  cases r with
  | done e => rfl
  | again fs => exact rounds_enough hsmaller (Nat.lt_succ_self _)
  | negation fs =>
    have h : rounds (sizeList es) k.opposite fs span = optimizeConnective k.opposite fs span :=
      rounds_enough hsmaller (Nat.lt_succ_self _)
    simp only [Round.proceed, h]

/-- A connective on which the optimiser is called again is smaller. -/
theorem connectiveStep_next?_size {r : Round} (hr : (connectiveStep k es span).value = .ok r)
    {d : Expr} (hd : d ∈ r.next? k span) : d.size < (Expr.connective k es span).size := by
  have hsmaller := connectiveStep_smaller hr
  cases r with
  | done e => cases hd
  | again fs => cases hd; exact Nat.add_lt_add_left hsmaller 1
  | negation fs => cases hd; exact Nat.add_lt_add_left hsmaller 1

end

/-! ## The queue of operands -/

/-- How a turn of the flattening loop ends: with all operands that are kept, or with what is left
in the queue, what is kept so far, and whether the next operand is still the first. -/
inductive Turn where
  | stop (kept : List Expr)
  | next (queue kept : List Expr) (leading : Bool)

namespace Stepwise

/-- A turn of the flattening loop for one operand off the queue. -/
def turn (k : Connective) (span : Span) (child : Expr) (queue kept : List Expr) (leading : Bool) :
    Trying Turn := do
  match ← asCondition child with
  | .connective k' es span' =>
    if k' = k then
      info .flatten fun _ => "flatten nested '" ++ k.keyword ++ "'"
      return .next (es ++ queue) kept leading
    else return .next queue (kept ++ [.connective k' es span']) false
  | .literal v =>
    match v.ebv span with
    | .error t =>
      if leading then throw (.eval t)
      else return .stop (kept ++ [← park (.eval t) span v.type])
    | .ok b =>
      if b.value = k.absorbing then
        info .preEvaluate fun _ => "'" ++ k.keyword ++ "' decided by " ++ v.text
        return .stop (kept ++ [.ofBool k.absorbing])
      else
        info .remove fun _ => "remove " ++ v.text ++ " from '" ++ k.keyword ++ "'"
        return .next queue kept false
  | core => return .next queue (kept ++ [core]) false

/-- The flattening loop, with as many turns as it takes. -/
def flatten (k : Connective) (span : Span) (queue kept : List Expr) (leading : Bool) :
    Trying (List Expr) :=
  keepOperands k span (sizeList queue + 1) queue kept leading

/-- What is done after a turn. -/
def proceed (k : Connective) (span : Span) : Turn → Trying (List Expr)
  | .stop kept => return kept
  | .next queue kept leading => flatten k span queue kept leading

section
variable {k : Connective} {span : Span} {queue kept : List Expr} {leading : Bool}

/-- What the loop keeps is what a round goes on with. -/
theorem perform_operands (k : Connective) (es : List Expr) (span : Span) :
    (selectOperands k span (pieces k es) true).perform = flatten k span es [] true := by
  rw [flatten, keepOperands_eq k span _ es [] true (Nat.lt_succ_self _)]
  simp

/-- More turns than nodes make no difference. -/
theorem keepOperands_enough {fuel : Nat} (hf : sizeList queue < fuel) :
    keepOperands k span fuel queue kept leading = flatten k span queue kept leading := by
  rw [flatten, keepOperands_eq k span fuel queue kept leading hf,
    keepOperands_eq k span _ queue kept leading (Nat.lt_succ_self _)]

/-- The flattening loop without fuel. -/
theorem flatten_cons (child : Expr) :
    flatten k span (child :: queue) kept leading =
      turn k span child queue kept leading >>= proceed k span := by
  have hcore := asCondition_size child
  have hpos := child.size_pos
  have hq : sizeList queue < sizeList (child :: queue) := by simp only [sizeList]; omega
  -- Both sides look at the core of the operand first; after that the fuel matters only where the
  -- loop goes on, and there the queue is smaller.
  simp only [flatten, keepOperands, turn, asCondition_eq, Noted.perform_then, bind_assoc]
  refine bind_congr fun _ => ?_
  generalize child.asCondition.value = core at hcore
  cases core with
  | connective k' es s =>
    simp only [Expr.size] at hcore
    have hes : sizeList (es ++ queue) < sizeList (child :: queue) := by
      rw [sizeList_append]; simp only [sizeList]; omega
    by_cases hk : k' = k
    · simp [hk, keepOperands_enough hes, proceed]
    · simp [hk, keepOperands_enough hq, proceed]
  | literal v =>
    cases hv : v.ebv span with
    | error t => cases leading <;> simp [hv, proceed]
    | ok b =>
      by_cases hb : b.value = k.absorbing
      · simp [hv, hb, proceed]
      · simp [hv, hb, keepOperands_enough hq, proceed]
  | _ => simp [keepOperands_enough hq, proceed]

/-- A turn takes nodes away from the queue. -/
theorem turn_smaller {child : Expr} {c : CompileContext} {queue' kept' : List Expr}
    {leading' : Bool}
    (h : (turn k span child queue kept leading c).1 = .ok (.next queue' kept' leading')) :
    sizeList queue' < sizeList (child :: queue) := by
  have hcore := asCondition_size child
  have hq : sizeList queue < sizeList (child :: queue) := by
    have := child.size_pos
    simp only [sizeList]; omega
  simp only [turn, asCondition_eq, Noted.perform_then, told_apply] at h
  generalize child.asCondition.value = core at h hcore
  cases core with
  | connective k' es s =>
    simp only [Expr.size] at hcore
    by_cases hk : k' = k
    · simp only [hk, if_true, info_eq, told_apply, pure_apply] at h
      cases h
      rw [sizeList_append]; simp only [sizeList]; omega
    · simp only [hk, if_false, pure_apply] at h
      cases h; exact hq
  | literal v =>
    cases hv : v.ebv span with
    | error t =>
      cases leading with
      | true =>
        simp only [hv, if_true, throw_apply] at h
        cases h
      | false =>
        simp only [hv, Bool.false_eq_true, if_false, park_eq, Noted.perform_then, told_apply,
          pure_apply] at h
        cases h
    | ok b =>
      by_cases hb : b.value = k.absorbing
      · simp only [hv, hb, if_true, info_eq, told_apply, pure_apply] at h
        cases h
      · simp only [hv, hb, if_false, info_eq, told_apply, pure_apply] at h
        cases h; exact hq
  | _ => cases h; exact hq

end

end Stepwise

/-! ## Size and depth -/

/-- No more nodes than another expression, and typeswitches not nested deeper. -/
structure Expr.NoLarger (e' e : Expr) : Prop where
  size : e'.size ≤ e.size
  depth : e'.dispatchDepth ≤ e.dispatchDepth

section
variable {f : Expr → Revised Expr} {e node : Expr}

theorem Expr.NoLarger.trans {a b c : Expr} (h₁ : a.NoLarger b) (h₂ : b.NoLarger c) :
    a.NoLarger c :=
  ⟨Nat.le_trans h₁.size h₂.size, Nat.le_trans h₁.depth h₂.depth⟩

/-- Nothing is smaller than a literal. -/
theorem Expr.literal_noLarger (v : Value) (e : Expr) : (Expr.literal v).NoLarger e :=
  ⟨e.size_pos, Nat.zero_le _⟩

theorem Expr.failing_noLarger (t : CompileError) (type : SeqType) (span : Span) (e : Expr) :
    (Expr.failing t type span).NoLarger e :=
  ⟨e.size_pos, Nat.zero_le _⟩

theorem Rewrites.noLarger {checks : Checks} {K : Known} {e' : Expr}
    (h : Rewrites checks K e (.ok e')) : e'.NoLarger e :=
  ⟨h.size e' rfl, h.depth e' rfl _ (Nat.le_refl _)⟩

theorem noLarger_order : RuleOrder Expr.NoLarger where
  trans := .trans
  rewrites := Rewrites.noLarger
  merged {c ds d e fs s m} hm := by
    constructor
    · have := merge?_size hm
      simp only [Expr.size, sizeList_append, sizeList]; omega
    · have hd : d.dispatchDepth ≤ (Expr.connective c (ds ++ d :: e :: fs) s).dispatchDepth :=
        Expr.part_depth (by simp [Expr.children])
      have hes := Expr.connective_depth.mp
        (Nat.le_refl (Expr.connective c (ds ++ d :: e :: fs) s).dispatchDepth)
      refine Expr.connective_depth.mpr ?_
      simp only [List.forall_mem_append, List.forall_mem_cons] at hes ⊢
      exact ⟨hes.1, merge?_depth hd hm, hes.2.2.2⟩
  negation h := ⟨Nat.add_le_add_left h.size 1, h.depth⟩
  caseResult hp := by
    constructor
    · exact Expr.size_count.caseResult_le hp
    · obtain ⟨m, hm, -, hcs⟩ := Expr.typeswitch_depth.mp (Nat.le_refl _)
      exact hm ▸ Nat.le_succ_of_le (hcs _ hp)

/-! ## Revised parts -/

theorem sizeList_map_le {g : Expr → Expr} {es : List Expr} (h : ∀ e ∈ es, (g e).size ≤ e.size) :
    sizeList (es.map g) ≤ sizeList es := by
  induction es with
  | nil => exact Nat.le_refl _
  | cons e es ih =>
    obtain ⟨he, hes⟩ := List.forall_mem_cons.mp h
    exact Nat.add_le_add he (ih hes)

/-- A node over revised parts is no larger if none of these is. -/
theorem Revises.noLarger {changed : Bool} (h : Revises f e node changed)
    (hf : ∀ d ∈ e.children, (f d).value.NoLarger d) : node.NoLarger e := by
  constructor
  · have hfront := sizeList_le_of_sublist h.children.sublist
    have hparts : sizeList (e.children.map fun d => (f d).value) ≤ sizeList e.children :=
      sizeList_map_le fun d hd => (hf d hd).size
    rw [node.size_eq, e.size_eq]
    omega
  · have hparts : dispatchDepthList node.children ≤ dispatchDepthList e.children := by
      refine dispatchDepthList_le.mpr fun d hd => ?_
      obtain ⟨d', hd', rfl⟩ := h.parts d hd
      exact Nat.le_trans (hf d' hd').depth (dispatchDepthList_le.mp (Nat.le_refl _) d' hd')
    rw [node.dispatchDepth_eq, e.dispatchDepth_eq, h.kind]
    omega

end

/-! ## Substitution of literals -/

/-- A substitution in expressions of less than a depth makes none of them larger. -/
def Substitution.ShrinksBelow (sub : Substitution) (n : Nat) : Prop :=
  ∀ e : Expr, e.dispatchDepth < n → ∀ x v r, (sub x v e).value = .ok r → r.value.NoLarger e

section
variable {sub : Substitution} {n : Nat}

/-- Substitution is called in the results of a typeswitch only, and these are not as deep. -/
theorem Substitution.ShrinksBelow.optimizeWith (hsub : sub.ShrinksBelow n) {node e : Expr}
    (hn : node.dispatchDepth ≤ n) (h : (optimizeWith sub node).value = .ok e) :
    e.NoLarger node := by
  refine noLarger_order.optimizeWith_order ?_ h
  rintro o cs s rfl p hp x v r hr
  obtain ⟨m, rfl, -, hcs⟩ := Expr.typeswitch_depth.mp hn
  exact hsub p.2 (Nat.lt_succ_of_le (hcs p hp)) x v r hr

theorem inlined_noLarger (hsub : sub.ShrinksBelow n) {x : Var} {v : Value} {e : Expr}
    (he : e.dispatchDepth ≤ n) : (inlined sub x (.literal v) e).value.NoLarger e := by
  revert he
  refine inlined_induction (P := fun e e' => e.dispatchDepth ≤ n → e'.NoLarger e)
    ?replaced ?kept ?parked ?revised ?optimized e
  case replaced => intro y span _ _; exact Expr.literal_noLarger v _
  case kept => intro y span _ _; exact noLarger_order.refl _
  case parked => intro e t _; exact Expr.failing_noLarger ..
  case revised =>
    intro e node changed hrev ih he
    exact hrev.noLarger fun d hd => ih d hd (Nat.le_trans (Expr.part_depth hd) he)
  case optimized =>
    intro e node e' hnode ho he
    exact (hsub.optimizeWith (Nat.le_trans (hnode he).depth he) ho).trans (hnode he)

/-- The substitutions of the compiler have enough fuel not to make anything larger. -/
theorem substitute_shrinksBelow (n : Nat) : (substitute n).ShrinksBelow n := by
  induction n with
  | zero => intro e he; cases he
  | succ n ih =>
    intro e he x v r hr
    have h := inlined_noLarger ih (x := x) (v := v) (Nat.le_of_lt_succ he)
    rwa [inlined_of_ok hr] at h

end

/-! ## Optimisation -/

/-- The optimiser makes nothing larger, whatever the parts of the node are. -/
theorem Expr.optimize_noLarger {e e' : Expr} (h : e.optimize.value = .ok e') : e'.NoLarger e :=
  (substitute_shrinksBelow _).optimizeWith (Nat.le_refl _) h

/-- Every call of the optimiser of connectives by itself is on a smaller connective, every turn of
its flattening loop leaves a smaller queue, and neither the optimiser nor the compiler gives back
more nodes than it was given. -/
theorem optimize_shrinks (c : CompileContext) (checks : Checks) :
    (∀ k es span,
      optimizeConnective k es span =
        (connectiveStep k es span).andThen (Round.proceed k span) ∧
      ∀ r, (c.run (connectiveStep k es span)).1 = .ok r →
        ∀ d ∈ r.next? k span, d.size < (Expr.connective k es span).size) ∧
    (∀ k es span,
      (selectOperands k span (pieces k es) true).perform = Stepwise.flatten k span es [] true) ∧
    (∀ k span kept leading,
      Stepwise.flatten k span [] kept leading = pure kept ∧
      ∀ child queue,
        Stepwise.flatten k span (child :: queue) kept leading =
          Stepwise.turn k span child queue kept leading >>= Stepwise.proceed k span ∧
        ∀ queue' kept' leading',
          (Stepwise.turn k span child queue kept leading c).1 = .ok (.next queue' kept' leading') →
            sizeList queue' < sizeList (child :: queue)) ∧
    (∀ e T, (c.optimize e).1 = .ok T → T.size ≤ e.size) ∧
    (∀ e T, (c.compile checks e).1 = .ok T → T.size ≤ e.size) := by
  refine ⟨fun k es span => ⟨optimizeConnective_eq_round k es span, ?_⟩, Stepwise.perform_operands,
    fun k span kept leading => ⟨rfl, fun child queue => ⟨Stepwise.flatten_cons child, ?_⟩⟩, ?_, ?_⟩
  · intro r hr d hd
    exact connectiveStep_next?_size hr hd
  · intro queue' kept' leading' h
    exact Stepwise.turn_smaller h
  · intro e T h
    exact (Expr.optimize_noLarger h).size
  · intro e T h
    have hr : Reaches checks [] e (e.compile checks).value := e.compile_reaches
    exact hr.rewrites.size T h

/-- The negations of two variables. -/
def negatedOperands : List Expr :=
  [.call .not (.var ⟨0, "x", none⟩ ⟨1, 5⟩) ⟨1, 1⟩, .call .not (.var ⟨1, "y", none⟩ ⟨1, 16⟩) ⟨1, 12⟩]

/-- Their conjunction is the negation of a disjunction, which is optimised in a call of its own; as
the first operand of another conjunction it is spliced into the queue. -/
theorem optimize_shrinks_negations :
    (∃ r d, (CompileContext.run (.start {} .empty)
        (connectiveStep .conjunction negatedOperands ⟨1, 8⟩)).1 = .ok r ∧
      d ∈ r.next? .conjunction ⟨1, 8⟩ ∧ d.kind = .disjunction ∧
      d.size < (Expr.connective .conjunction negatedOperands ⟨1, 8⟩).size) ∧
    (∃ queue kept leading,
      (Stepwise.turn .conjunction .unknown (.connective .conjunction negatedOperands ⟨1, 8⟩)
        [.ofBool true] [] true (.start {} .empty)).1 = .ok (.next queue kept leading) ∧
      queue.length = 3 ∧
      sizeList queue <
        sizeList [.connective .conjunction negatedOperands ⟨1, 8⟩, .ofBool true]) ∧
    (∃ T, (CompileContext.optimize (.start {} .empty)
        (.connective .conjunction negatedOperands ⟨1, 8⟩)).1 = .ok T ∧
      T.size ≤ (Expr.connective .conjunction negatedOperands ⟨1, 8⟩).size) ∧
    (∃ T, (CompileContext.compile (.start {} .empty) (fun _ _ _ => .ok ())
        (.connective .conjunction negatedOperands ⟨1, 8⟩)).1 = .ok T ∧
      T.size ≤ (Expr.connective .conjunction negatedOperands ⟨1, 8⟩).size) := by
  obtain ⟨hround, -, hturn, hoptimize, hcompile⟩ :=
    optimize_shrinks (.start {} .empty) fun _ _ _ => .ok ()
  refine ⟨⟨_, _, rfl, rfl, rfl, (hround .conjunction negatedOperands ⟨1, 8⟩).2 _ rfl _ rfl⟩,
    ⟨_, _, _, rfl, rfl, ?_⟩, ⟨_, rfl, hoptimize _ _ rfl⟩, ⟨_, rfl, hcompile _ _ rfl⟩⟩
  exact ((hturn .conjunction .unknown [] true).2 _ _).2 _ _ _ rfl

end QueryExpr
