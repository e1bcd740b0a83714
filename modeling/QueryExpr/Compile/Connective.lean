import QueryExpr.Compile.Node

/-!
# QueryExpr.Compile.Connective

The rules for conjunctions and disjunctions whose operands are already compiled.

* `pieces`        — the operands of nested connectives of one kind in a row.
* `selectOperands` — literals among them folded; nothing is kept behind an operand that decides.
* `dropDuplicates`, `mergeAdjacent` — repeated operands and neighbours that combine.
* `connectiveStep` — one round of all rules.
* `optimizeConnective` — rounds until nothing changes.

The order of operands can be seen through their errors. So a literal settles the whole connective
only if no operand stays in front of it, and a later literal without a boolean value is parked.
-/

namespace QueryExpr

/-! ## Flattening -/

/-- What flattening yields, in order: the operands, and what there is to tell about them. -/
inductive Piece where
  | event (e : Event)
  | operand (e : Expr)

mutual

/-- The pieces of one operand. Only its effective boolean value is used, so calls of `boolean`
around it are dropped; `after` is told once the core is reached. -/
def Expr.pieces (c : Connective) : Expr → List Event → List Piece
  | .call .boolean arg span, after =>
    let core := arg.asCondition.value
    arg.pieces c (.note .simplify ("boolean(" ++ core.text ++ ") used as a boolean") ::
      .replacement .boolean core.kind span :: after)
  | .connective c' es span, after =>
    after.map .event ++
      (if c' = c then
        .event (.note .flatten ("flatten nested '" ++ c.keyword ++ "'")) :: pieces c es
      else [.operand (.connective c' es span)])
  | e, after => after.map .event ++ [.operand e]

def pieces (c : Connective) : List Expr → List Piece
  | [] => []
  | e :: es => e.pieces c [] ++ pieces c es

end

/-! ## Literals -/

/-- Folds the literals among the operands. A literal that does not decide is removed, and one that
decides is the last operand kept. Only a leading literal may fail at once. -/
def selectOperands (c : Connective) (span : Span) : List Piece → Bool → Attempt (List Expr)
  | [], _ => .ok []
  | .event t :: ps, leading => (selectOperands c span ps leading).after [t]
  | .operand (.literal v) :: ps, leading =>
    match v.ebv span with
    | .error t =>
      if leading then .fail (.eval t) else .lift ((park (.eval t) span v.type).map ([·]))
    | .ok b =>
      if b.value = c.absorbing then
        Attempt.after [.note .preEvaluate ("'" ++ c.keyword ++ "' decided by " ++ v.text)] <|
          .ok [.ofBool c.absorbing]
      else
        Attempt.after [.note .remove ("remove " ++ v.text ++ " from '" ++ c.keyword ++ "'")] <|
          selectOperands c span ps false
  | .operand e :: ps, _ => (selectOperands c span ps false).map (e :: ·)

/-! ## Duplicates and neighbours -/

/-- Drops operands that occur among those before them, unless they may yield different results. -/
def dropDuplicates (c : Connective) : List Expr → List Expr → Noted (List Expr)
  | _, [] => .of []
  | seen, e :: es =>
    if !e.isRandom && seen.any e.same then
      (dropDuplicates c seen es).after
        [.note .remove ("remove duplicate " ++ e.text ++ " from '" ++ c.keyword ++ "'")]
    else (dropDuplicates c (seen ++ [e]) es).map (e :: ·)

/-- Merges an operand with those after it as long as there is a rule. -/
def mergeOnto (c : Connective) : Expr → List Expr → Noted (List Expr)
  | last, [] => .of [last]
  | last, e :: es =>
    match last.merge? c e with
    | some m => (mergeOnto c m.value es).after m.events
    | none => (mergeOnto c e es).map (last :: ·)

def mergeAdjacent (c : Connective) : List Expr → Noted (List Expr)
  | [] => .of []
  | e :: es => mergeOnto c e es

/-! ## Negations -/

/-- What is negated, if every operand is a call of `not`. -/
def negated? : List Expr → Option (List Expr)
  | [] => some []
  | .call .not arg _ :: es => (negated? es).map (arg :: ·)
  | _ :: _ => none

/-! ## Rounds -/

/-- How a round over a connective ends. -/
inductive Round where
  | done (e : Expr)
  /-- Operands were merged, which may have made a literal or a new duplicate. -/
  | again (operands : List Expr)
  /-- All operands are negations of these. -/
  | negation (operands : List Expr)

/-- The round over operands of which none is a literal before the last. -/
def combineOperands (c : Connective) (es : List Expr) (span : Span) : Attempt Round :=
  let unique := dropDuplicates c [] es
  let merged := mergeAdjacent c unique.value
  Attempt.after (unique.events ++ merged.events) <|
    if merged.value.length ≠ unique.value.length then
      Attempt.after [.note .simplify ("merge operands of '" ++ c.keyword ++ "' (" ++
          toString unique.value.length ++ " -> " ++ toString merged.value.length ++ ")")] <|
        .ok (.again merged.value)
    else
      match merged.value with
      | [e] =>
        (optimizeBoolean e span).andThen fun e => .lift ((replaced c.kind span e).map .done)
      | es =>
        match negated? es with
        | some args =>
          Attempt.after [.note .negate ("factor out negation of '" ++ c.keyword ++ "'")] <|
            .ok (.negation args)
        | none => .ok (.done (.connective c es span))

/-- One round of all rules. Without an operand a connective has the value that does not decide. -/
def connectiveStep (c : Connective) (es : List Expr) (span : Span) : Attempt Round :=
  (selectOperands c span (pieces c es) true).andThen fun kept =>
    match kept with
    | [] => .lift ((replaced c.kind span (.ofBool !c.absorbing)).map .done)
    | [.literal v] => .lift ((replaced c.kind span (.literal v)).map .done)
    | es => combineOperands c es span

/-- At most so many rounds; a connective that is left over is left as it is. -/
def rounds : Nat → Connective → List Expr → Span → Attempt Expr
  | 0, c, es, span => .ok (.connective c es span)
  | fuel + 1, c, es, span =>
    (connectiveStep c es span).andThen fun r =>
      match r with
      | .done e => .ok e
      | .again es => rounds fuel c es span
      | .negation es =>
        (rounds fuel c.opposite es span).andThen fun e =>
          (optimizeNot e span).andThen fun e => .lift (replaced c.kind span e)

/-- Optimises a connective. Every round but the last makes the operands smaller, so there are at
most as many rounds as nodes. -/
def optimizeConnective (c : Connective) (es : List Expr) (span : Span) : Attempt Expr :=
  rounds (sizeList es + 1) c es span

end QueryExpr
