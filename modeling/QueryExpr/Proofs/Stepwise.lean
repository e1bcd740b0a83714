import QueryExpr.Compile.Stepwise
import QueryExpr.Proofs.Inline

/-!
# QueryExpr.Proofs.Stepwise

The rules that have the context at hand do what the noted rules do, whose events are recorded
afterwards.

* `Noted.perform`, `Attempt.perform` — a noted result as a step in a context. They take every way
  of going on with a noted result to the same way of going on with a step (`perform_bind`,
  `perform_andThen`, `perform_after` and their siblings).
* `info_eq`, `replaceWith_eq` — the only two steps that look at the configuration.
* `keepOperands_eq` — the queue of operands against the pieces of the noted rules.
* `rounds_eq`, `inlineWith_eq`, `compile_eq` — the recursions, each along its own definition.

So a rule of `Compile.Stepwise` that chose its result by the configuration, the scope or a log
would have no equation here.
-/

namespace QueryExpr

variable {α β : Type}

/-! ## Noted results as steps -/

/-- Records events in the context at hand. -/
def tell (events : List Event) : Compiling Unit := modify (·.recordAll events)

/-- A noted result as a step: its events are recorded, and its value is returned. -/
def Noted.perform (x : Noted α) : Compiling α := fun c => c.run x

/-- An attempt as a step that may fail. -/
def Attempt.perform (x : Attempt α) : Trying α := ExceptT.mk (Noted.perform x)

theorem CompileContext.recordAll_append (c : CompileContext) (l m : List Event) :
    c.recordAll (l ++ m) = (c.recordAll l).recordAll m :=
  List.foldl_append

theorem tell_append (l m : List Event) :
    (liftM (tell (l ++ m)) : Trying Unit) = liftM (tell l) >>= fun _ => liftM (tell m) := by
  funext c
  exact congrArg (Prod.mk _) (c.recordAll_append l m)

@[simp] theorem Noted.perform_of (a : α) : (Noted.of a).perform = pure a := rfl

@[simp] theorem Noted.perform_bind (x : Noted α) (f : α → Noted β) :
    (x.bind f).perform = x.perform >>= fun a => (f a).perform := by
  funext c
  exact congrArg (Prod.mk _) (c.recordAll_append _ _)

@[simp] theorem Noted.perform_map (f : α → β) (x : Noted α) :
    (x.map f).perform = f <$> x.perform := rfl

@[simp] theorem Noted.perform_after (events : List Event) (x : Noted α) :
    (x.after events).perform = tell events >>= fun _ => x.perform := by
  funext c
  exact congrArg (Prod.mk _) (c.recordAll_append _ _)

theorem Noted.perform_eq (x : Noted α) : x.perform = tell x.events >>= fun _ => pure x.value := rfl

@[simp] theorem Attempt.perform_ok (a : α) : (Attempt.ok a).perform = pure a := rfl

@[simp] theorem Attempt.perform_fail (t : CompileError) :
    (Attempt.fail t : Attempt α).perform = throw t := rfl

@[simp] theorem Attempt.perform_lift (x : Noted α) :
    (Attempt.lift x).perform = liftM x.perform := rfl

@[simp] theorem Attempt.perform_after (events : List Event) (x : Attempt α) :
    (Attempt.after events x).perform = liftM (tell events) >>= fun _ => x.perform :=
  Noted.perform_after events x

@[simp] theorem Attempt.perform_map (f : α → β) (x : Attempt α) :
    (x.map f).perform = f <$> x.perform := by
  obtain ⟨(t | a), events⟩ := x <;> rfl

@[simp] theorem Attempt.perform_andThen (x : Attempt α) (f : α → Attempt β) :
    (x.andThen f).perform = x.perform >>= fun a => (f a).perform := by
  obtain ⟨(t | a), events⟩ := x
  · rfl
  · funext c
    exact congrArg (Prod.mk _) (c.recordAll_append _ _)

/-- A noted result that comes first is as good as its value, once its events are recorded. -/
theorem Noted.perform_then (x : Noted α) (f : α → Trying β) :
    (liftM x.perform >>= f) = liftM (tell x.events) >>= fun _ => f x.value := rfl

/-- The same for an attempt of which the error is caught. -/
theorem Attempt.perform_caught (x : Attempt α) (f : Except CompileError α → Compiling β) :
    (x.perform.run >>= f) = tell x.events >>= fun _ => f x.value := rfl

/-! What such steps come to in a context. -/

theorem told_apply (events : List Event) (f : Unit → Trying α) (c : CompileContext) :
    ((liftM (tell events) : Trying Unit) >>= f) c = f () (c.recordAll events) := rfl

theorem pure_apply (a : α) (c : CompileContext) : (pure a : Trying α) c = (.ok a, c) := rfl

theorem throw_apply (t : CompileError) (c : CompileContext) :
    (throw t : Trying α) c = (.error t, c) := rfl

/-- A step that may have nothing to yield, and then has nothing to tell either. -/
def Noted.ofOption : Option (Noted α) → Noted (Option α)
  | none => .of none
  | some x => x.map some

namespace Stepwise

/-! ## Services -/

@[simp] theorem info_eq (category : Category) (message : Unit → String) :
    info category message = tell [.note category (message ())] := by
  funext c
  obtain ⟨⟨⟨enabled, log, replacements⟩⟩, scope, ds, rs, ts⟩ := c
  cases enabled <;> cases log <;> rfl

@[simp] theorem park_eq (cause : CompileError) (span : Span) (type : SeqType) :
    park cause span type = (QueryExpr.park cause span type).perform := by
  simp only [park, info_eq]
  rfl

@[simp] theorem replaceWith_eq (source : Kind) (span : Span) (e : Expr) :
    replaceWith source span e = (replaced source span e).perform := by
  funext c
  obtain ⟨⟨⟨enabled, log, replacements⟩⟩, scope, ds, rs, ts⟩ := c
  cases replacements <;> cases log <;> rfl

/-! ## Single nodes -/

@[simp] theorem asCondition_eq (e : Expr) : asCondition e = e.asCondition.perform := by
  induction e using Expr.asCondition.induct with
  | case1 arg span ih =>
    have told : (Expr.call .boolean arg span).asCondition = arg.asCondition.bind fun core =>
        (replaced .boolean span core).after
          [.note .simplify ("boolean(" ++ core.text ++ ") used as a boolean")] := rfl
    simp [told, asCondition, ih]
  | case2 e h => simp [asCondition, Expr.asCondition]

@[simp] theorem optimizeBoolean_eq (arg : Expr) (span : Span) :
    optimizeBoolean arg span = (QueryExpr.optimizeBoolean arg span).perform := by
  simp only [optimizeBoolean, QueryExpr.optimizeBoolean, asCondition_eq, Noted.perform_then,
    Attempt.perform_after]
  refine bind_congr fun _ => ?_
  generalize arg.asCondition.value = core
  split
  · rename_i v
    simp only [tryNow]
    cases v.ebv span <;> simp [callFolded]
  · by_cases h : core.type = .booleanOne <;> simp [h]

@[simp] theorem optimizeNot_eq (arg : Expr) (span : Span) :
    optimizeNot arg span = (QueryExpr.optimizeNot arg span).perform := by
  simp only [optimizeNot, QueryExpr.optimizeNot, asCondition_eq, Noted.perform_then,
    Attempt.perform_after]
  refine bind_congr fun _ => ?_
  generalize arg.asCondition.value = core
  split
  · rename_i v
    simp only [tryNow]
    cases v.ebv span <;> simp [callFolded]
  · simp
  · simp

@[simp] theorem optimizeCall_eq (fn : Builtin) (arg : Expr) (span : Span) :
    optimizeCall fn arg span = (QueryExpr.optimizeCall fn arg span).perform := by
  cases fn <;> simp [optimizeCall, QueryExpr.optimizeCall]

@[simp] theorem optimizeCast_eq (operand : Expr) (target : SeqType) (span : Span) :
    optimizeCast operand target span = (QueryExpr.optimizeCast operand target span).perform := by
  unfold optimizeCast QueryExpr.optimizeCast
  split
  · rename_i v
    simp only [tryNow]
    cases v.cast target span <;> simp
  · by_cases h : castIsVoid operand.type target <;> simp [h]

@[simp] theorem optimizeCompare_eq (op : CompareOp) (left right : Expr) (span : Span) :
    optimizeCompare op left right span =
      (QueryExpr.optimizeCompare op left right span).perform := by
  unfold optimizeCompare QueryExpr.optimizeCompare
  split
  · rename_i v w
    simp only [tryNow]
    cases v.compare op span w <;> simp
  · simp

@[simp] theorem optimizeRange_eq (bounds : Bounds) (operand : Expr) (span : Span) :
    optimizeRange bounds operand span =
      (QueryExpr.optimizeRange bounds operand span).perform := by
  unfold optimizeRange QueryExpr.optimizeRange
  split
  · simp
  · split
    · rename_i v
      simp only [tryNow]
      cases bounds.test span v <;> simp
    · simp

@[simp] theorem optimizePosition_eq (min max : Int64) (span : Span) :
    optimizePosition min max span = (QueryExpr.optimizePosition min max span).perform := by
  unfold optimizePosition QueryExpr.optimizePosition
  cases positionConstant? min max <;> simp

@[simp] theorem optimizeSwitch_eq (operand : Expr) (cases : List (Expr × Expr))
    (default : Expr) (span : Span) :
    optimizeSwitch operand cases default span =
      (QueryExpr.optimizeSwitch operand cases default span).perform := by
  unfold optimizeSwitch QueryExpr.optimizeSwitch
  split
  · rename_i v
    simp only [tryNow]
    cases v.single? span with
    | error t => simp
    | ok i =>
      simp only [pure_bind]
      cases chooseCase i span cases with
      | error t => simp
      | ok choice => cases choice <;> simp
  · simp

/-! ## Merging -/

theorem mergePositions_eq (a b c d : Int64) (span : Span) :
    mergePositions a b c d span = (QueryExpr.mergePositions a b c d span).perform := by
  simp only [mergePositions, info_eq]
  rfl

theorem mergeRanges_eq (b c : Bounds) (e f : Expr) (span : Span) :
    mergeRanges b c e f span = (Noted.ofOption (QueryExpr.mergeRanges b c e f span)).perform := by
  unfold mergeRanges QueryExpr.mergeRanges
  split
  · rfl
  · simp only [info_eq]
    rfl

theorem mergeEqualities_eq (op op' : CompareOp) (l r l' r' : Expr) (span : Span) :
    mergeEqualities op op' l r l' r' span =
      (Noted.ofOption (QueryExpr.mergeEqualities op op' l r l' r' span)).perform := by
  unfold mergeEqualities QueryExpr.mergeEqualities
  split
  · rfl
  · split
    · simp only [info_eq]
      rfl
    · simp [Noted.ofOption]

@[simp] theorem merge?_eq (k : Connective) (e f : Expr) :
    merge? k e f = (Noted.ofOption (e.merge? k f)).perform := by
  unfold merge? Expr.merge?
  split
  · simp only [mergePositions_eq]
    rfl
  · exact mergeRanges_eq ..
  · exact mergeEqualities_eq ..
  · simp [Noted.ofOption]

/-! ## Operands of a connective -/

theorem addUnique_eq (k : Connective) (unique es : List Expr) :
    addUnique k unique es = (unique ++ ·) <$> (dropDuplicates k unique es).perform := by
  induction es generalizing unique with
  | nil => simp [addUnique, dropDuplicates]
  | cons e es ih =>
    by_cases h : (!e.isRandom && unique.any e.same) = true
    · simp [addUnique, dropDuplicates, h, ih]
    · simp [addUnique, dropDuplicates, h, ih]

theorem addMerged_eq (k : Connective) (init es : List Expr) (last : Expr) :
    addMerged k (init ++ [last]) es = (init ++ ·) <$> (mergeOnto k last es).perform := by
  induction es generalizing init last with
  | nil => simp [addMerged, mergeOnto]
  | cons e es ih =>
    cases h : last.merge? k e with
    | none =>
      have := ih (init ++ [last]) e
      simpa [addMerged, mergeOnto, h, Noted.ofOption] using this
    | some m =>
      simp [addMerged, mergeOnto, h, ih, Noted.ofOption, Noted.perform_eq m]

theorem addMerged_nil (k : Connective) (es : List Expr) :
    addMerged k [] es = (mergeAdjacent k es).perform := by
  cases es with
  | nil => rfl
  | cons e es => simpa [addMerged, mergeAdjacent] using addMerged_eq k [] es e

/-! ## The queue of operands -/

/-- The pieces of an operand are what there is to tell on the way to its core, and the pieces of
the core. -/
theorem pieces_core (k : Connective) (e : Expr) (after : List Event) :
    e.pieces k after =
      (e.asCondition.events ++ after).map .event ++ e.asCondition.value.pieces k [] := by
  induction e using Expr.asCondition.induct generalizing after with
  | case1 arg span ih => simp [Expr.pieces, Expr.asCondition, ih]
  | case2 e h =>
    have bare : e.pieces k after = after.map .event ++ e.pieces k [] := by
      cases e with
      | call fn arg span =>
        cases fn with
        | boolean => exact absurd rfl (h arg span)
        | not => simp [Expr.pieces]
      | _ => simp [Expr.pieces]
    simpa [Expr.asCondition, Noted.of] using bare

theorem selectOperands_events (k : Connective) (span : Span) (events : List Event)
    (ps : List Piece) (leading : Bool) :
    selectOperands k span (events.map .event ++ ps) leading =
      (selectOperands k span ps leading).after events := by
  induction events with
  | nil => rfl
  | cons e es ih => simp [selectOperands, ih, Attempt.after, Noted.after]

theorem pieces_append (k : Connective) (es fs : List Expr) :
    pieces k (es ++ fs) = pieces k es ++ pieces k fs := by
  induction es with
  | nil => rfl
  | cons e es ih => simp [pieces, ih]

theorem asCondition_size (e : Expr) : e.asCondition.value.size ≤ e.size := by
  induction e using Expr.asCondition.induct with
  | case1 arg span ih => simp only [Expr.asCondition, Expr.size]; omega
  | case2 e h => simp [Expr.asCondition, Noted.of]

/-- With as many turns as nodes in the queue, all of it is looked at. -/
theorem keepOperands_eq (k : Connective) (span : Span) (fuel : Nat) (queue kept : List Expr)
    (leading : Bool) (hf : sizeList queue < fuel) :
    keepOperands k span fuel queue kept leading =
      (kept ++ ·) <$> (selectOperands k span (pieces k queue) leading).perform := by
  induction fuel generalizing queue kept leading with
  | zero => omega
  | succ fuel ih =>
    cases queue with
    | nil => simp [keepOperands, pieces, selectOperands]
    | cons child queue =>
      have hcore := asCondition_size child
      have hpos := child.size_pos
      simp only [sizeList] at hf
      have hq : sizeList queue < fuel := by omega
      -- Both sides look at the core of the operand first, and nothing else tells anything before.
      simp only [keepOperands, asCondition_eq, Noted.perform_then, pieces, pieces_core k child,
        List.append_nil, List.append_assoc, selectOperands_events, Attempt.perform_after, map_bind]
      refine bind_congr fun _ => ?_
      have hkind := asCondition_kind child
      generalize child.asCondition.value = core at hcore hkind
      cases core with
      | connective k' es s =>
        simp only [Expr.size] at hcore
        by_cases hk : k' = k
        · have hes : sizeList (es ++ queue) < fuel := by rw [sizeList_append]; omega
          simp [Expr.pieces, hk, selectOperands, ih _ _ _ hes, pieces_append]
        · simp [Expr.pieces, hk, selectOperands, ih _ _ _ hq]
      | literal v =>
        cases hv : v.ebv span with
        | error t => 
          cases leading <;> simp [Expr.pieces, selectOperands, hv]
        | ok b =>
          by_cases hb : b.value = k.absorbing
          · simp [Expr.pieces, selectOperands, hv, hb]
          · simp [Expr.pieces, selectOperands, hv, hb, ih _ _ _ hq]
      | call fn arg s =>
        cases fn with
        | boolean => exact absurd rfl hkind
        | not => simp [Expr.pieces, selectOperands, ih _ _ _ hq]
      | _ => simp [Expr.pieces, selectOperands, ih _ _ _ hq]

/-! ## Rounds -/

@[simp] theorem rounds_eq (fuel : Nat) (k : Connective) (es : List Expr) (span : Span) :
    rounds fuel k es span = (QueryExpr.rounds fuel k es span).perform := by
  induction fuel generalizing k es with
  | zero => rfl
  | succ fuel ih =>
    simp only [rounds, QueryExpr.rounds, connectiveStep, Attempt.perform_andThen, bind_assoc,
      keepOperands_eq k span _ es [] true (Nat.lt_succ_self _), List.nil_append, id_map']
    refine bind_congr fun kept => ?_
    split
    · simp
    · simp
    · simp only [addUnique_eq, addMerged_nil, List.nil_append, id_map', combineOperands,
        Attempt.perform_after, tell_append, bind_assoc, Noted.perform_then]
      refine bind_congr fun _ => bind_congr fun _ => ?_
      generalize (dropDuplicates k [] kept).value = unique
      generalize (mergeAdjacent k unique).value = merged
      by_cases hl : merged.length = unique.length
      · simp only [hl, ne_eq, not_true_eq_false, if_false]
        rcases merged with _ | ⟨e, _ | ⟨e', es⟩⟩
        · simp [negated?, ih]
        · simp
        · dsimp only
          cases negated? (e :: e' :: es) with
          | none => simp
          | some args => simp [ih]
      · simp [hl, ih]

@[simp] theorem optimizeConnective_eq (k : Connective) (es : List Expr) (span : Span) :
    optimizeConnective k es span = (QueryExpr.optimizeConnective k es span).perform :=
  rounds_eq ..

/-! ## Typeswitches and all nodes -/

/-- A noted substitution as steps. -/
def performed (sub : Substitution) : Substitute := fun x v e => (sub x v e).perform

theorem optimizeTypeswitch_eq (sub : Substitution) (operand : Expr)
    (cases : List (CaseHead × Expr)) (span : Span) :
    optimizeTypeswitch (performed sub) operand cases span =
      (QueryExpr.optimizeTypeswitch sub operand cases span).perform := by
  unfold optimizeTypeswitch QueryExpr.optimizeTypeswitch
  by_cases hv : ((cases.all fun c => c.2.isVacuous) && !operand.isRandom) = true
  · simp [hv]
  · rw [if_neg hv, if_neg hv]
    cases operand with
    | literal v =>
      dsimp only
      cases cases.find? fun c => c.1.admits v with
      | none => simp
      | some c => obtain ⟨⟨_ | x, t⟩, result⟩ := c <;> simp [takeCase, performed]
    | _ => simp

@[simp] theorem optimizeWith_eq (sub : Substitution) (e : Expr) :
    optimizeWith (performed sub) e = (QueryExpr.optimizeWith sub e).perform := by
  cases e <;> simp [optimizeWith, QueryExpr.optimizeWith, optimizeTypeswitch_eq]

/-! ## Substitution -/

@[simp] theorem rebuilt_eq (sub : Substitution) (changed : Bool) (node : Expr) :
    rebuilt (performed sub) changed node = (QueryExpr.rebuilt sub changed node).perform := by
  cases changed <;> simp [rebuilt, QueryExpr.rebuilt]

@[simp] theorem deferredRevision_eq (operand : Expr) (x : Attempt (Revised Expr)) :
    deferredRevision operand x.perform = (parkedRevision x operand).perform := by
  rw [deferredRevision, Attempt.perform_caught, parkedRevision]
  cases x.value with
  | error t => simp
  | ok r => rfl

mutual

theorem inlineWith_eq (sub : Substitution) (x : Var) (w : Expr) : ∀ e : Expr,
    inlineWith (performed sub) x w e = (QueryExpr.inlineWith sub x w e).perform
  | .connective k es span => by
    simp [inlineWith, QueryExpr.inlineWith, inlineOperands_eq sub x w true es]
  | .switch e cs d span => by
    simp [inlineWith, QueryExpr.inlineWith, inlineWith_eq sub x w e, inlineCases_eq sub x w cs,
      inlineWith_eq sub x w d]
  | .typeswitch e cs span => by
    simp [inlineWith, QueryExpr.inlineWith, inlineWith_eq sub x w e, inlineTypeCases_eq sub x w cs]
  | .cast e t span => by
    simp [inlineWith, QueryExpr.inlineWith, inlineWith_eq sub x w e]
  | .call fn e span => by
    simp [inlineWith, QueryExpr.inlineWith, inlineWith_eq sub x w e]
  | .compare op l r span => by
    simp [inlineWith, QueryExpr.inlineWith, inlineWith_eq sub x w l, inlineWith_eq sub x w r]
  | .range b e span => by
    simp [inlineWith, QueryExpr.inlineWith, inlineWith_eq sub x w e]
  | .var v span => by
    cases h : v.same x <;> simp [inlineWith, QueryExpr.inlineWith, h]
  | .external fn es tail span => by
    simp [inlineWith, QueryExpr.inlineWith, inlineOperands_eq sub x w false es]
  | .position a b span => rfl
  | .literal v => rfl
  | .failing c t span => rfl

theorem inlineOperands_eq (sub : Substitution) (x : Var) (w : Expr) (truncate : Bool) :
    ∀ es : List Expr, inlineOperands (performed sub) x w truncate es =
      (QueryExpr.inlineOperands sub x w truncate es).perform
  | [] => rfl
  | e :: es => by
    simp [inlineOperands, QueryExpr.inlineOperands, inlineWith_eq sub x w e,
      inlineRest_eq sub x w truncate es]

theorem inlineRest_eq (sub : Substitution) (x : Var) (w : Expr) (truncate : Bool) :
    ∀ es : List Expr, inlineRest (performed sub) x w truncate es =
      (QueryExpr.inlineRest sub x w truncate es).perform
  | [] => rfl
  | e :: es => by
    simp only [inlineRest, QueryExpr.inlineRest, inlineWith_eq sub x w e,
      inlineRest_eq sub x w truncate es, Attempt.perform_caught]
    cases h : (QueryExpr.inlineWith sub x w e).value with
    | error t => cases truncate <;> simp
    | ok r => simp

theorem inlineCases_eq (sub : Substitution) (x : Var) (w : Expr) :
    ∀ cs : List (Expr × Expr), inlineCases (performed sub) x w cs =
      (QueryExpr.inlineCases sub x w cs).perform
  | [] => rfl
  | (v, e) :: cs => by
    simp [inlineCases, QueryExpr.inlineCases, inlineWith_eq sub x w v, inlineWith_eq sub x w e,
      inlineCases_eq sub x w cs]

theorem inlineTypeCases_eq (sub : Substitution) (x : Var) (w : Expr) :
    ∀ cs : List (CaseHead × Expr), inlineTypeCases (performed sub) x w cs =
      (QueryExpr.inlineTypeCases sub x w cs).perform
  | [] => rfl
  | (h, e) :: cs => by
    simp [inlineTypeCases, QueryExpr.inlineTypeCases, inlineWith_eq sub x w e,
      inlineTypeCases_eq sub x w cs]

end

theorem substitute_eq (depth : Nat) :
    substitute depth = performed (QueryExpr.substitute depth) := by
  induction depth with
  | zero => rfl
  | succ depth ih =>
    funext x v e
    simp only [substitute, ih, inlineWith_eq]
    rfl

theorem inline_eq (e : Expr) (x : Var) (w : Expr) : inline e x w = (e.inline x w).perform := by
  rw [inline, substitute_eq, inlineWith_eq]
  rfl

@[simp] theorem optimize_eq (e : Expr) : optimize e = e.optimize.perform := by
  rw [optimize, substitute_eq, optimizeWith_eq]
  rfl

/-! ## Whole trees -/

@[simp] theorem deferred_eq (operand : Expr) (x : Attempt Expr) :
    deferred operand x.perform = (x.parked operand).perform := by
  rw [deferred, Attempt.perform_caught, Attempt.parked]
  cases x.value with
  | error t => simp
  | ok e => rfl

@[simp] theorem checkedCast_eq (operand : Expr) (target : SeqType) (span : Span) :
    checkedCast operand target span = (QueryExpr.checkedCast operand target span).perform := by
  unfold checkedCast QueryExpr.checkedCast
  split <;> simp

mutual

theorem compile_eq (checks : Checks) : ∀ e : Expr,
    compile checks e = (e.compile checks).perform
  | .connective k es span => by
    simp [compile, Expr.compile, compileOperands_eq checks es]
  | .switch e cs d span => by
    simp [compile, Expr.compile, compile_eq checks e, compileCases_eq checks cs,
      compile_eq checks d]
  | .typeswitch e cs span => by
    cases h : endsInDefault cs <;>
      simp [compile, Expr.compile, h, compile_eq checks e, compileTypeCases_eq checks cs]
  | .cast e t span => by
    cases h : t.isCastTarget <;> simp [compile, Expr.compile, h, compile_eq checks e]
  | .call fn e span => by
    simp [compile, Expr.compile, compile_eq checks e]
  | .compare op l r span => by
    simp [compile, Expr.compile, compile_eq checks l, compile_eq checks r]
  | .range b e span => by
    simp [compile, Expr.compile, compile_eq checks e]
  | .position a b span => by
    simp [compile, Expr.compile]
  | .literal v => rfl
  | .var v span => rfl
  | .external fn es tail span => by
    simp only [compile, Expr.compile, compileOperands_eq checks es, Attempt.perform_andThen]
    refine bind_congr fun es' => ?_
    cases checks fn es' span <;> rfl
  | .failing c t span => rfl

theorem compileOperands_eq (checks : Checks) : ∀ es : List Expr,
    compileOperands checks es = (QueryExpr.compileOperands checks es).perform
  | [] => rfl
  | e :: es => by
    simp [compileOperands, QueryExpr.compileOperands, compile_eq checks e,
      compileRest_eq checks es]

theorem compileRest_eq (checks : Checks) : ∀ es : List Expr,
    compileRest checks es = (QueryExpr.compileRest checks es).perform
  | [] => rfl
  | e :: es => by
    simp [compileRest, QueryExpr.compileRest, compile_eq checks e, compileRest_eq checks es]

theorem compileCases_eq (checks : Checks) : ∀ cs : List (Expr × Expr),
    compileCases checks cs = (QueryExpr.compileCases checks cs).perform
  | [] => rfl
  | (v, r) :: cs => by
    simp [compileCases, QueryExpr.compileCases, compile_eq checks v, compile_eq checks r,
      compileCases_eq checks cs]

theorem compileTypeCases_eq (checks : Checks) : ∀ cs : List (CaseHead × Expr),
    compileTypeCases checks cs = (QueryExpr.compileTypeCases checks cs).perform
  | [] => rfl
  | (h, r) :: cs => by
    simp [compileTypeCases, QueryExpr.compileTypeCases, compile_eq checks r,
      compileTypeCases_eq checks cs]

end

end Stepwise
end QueryExpr
