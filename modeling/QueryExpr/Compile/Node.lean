import QueryExpr.Compile.Note
import QueryExpr.Expr.Equality
import QueryExpr.Expr.Match

/-!
# QueryExpr.Compile.Node

The rules for single nodes whose operands are already compiled. Connectives and typeswitches have
modules of their own.

* `Expr.asCondition` — a node of which only the effective boolean value is used.
* `optimizeCall`, `optimizeCast`, `optimizeCompare`, `optimizeRange`, `optimizePosition`,
  `optimizeSwitch` — folding of literals, and elision of what does nothing.
* `Expr.merge?` — two neighbouring operands of a connective as one.
-/

namespace QueryExpr

/-! ## Boolean functions -/

/-- Drops calls of `boolean` around a node of which only the effective boolean value is used. -/
def Expr.asCondition : Expr → Noted Expr
  | .call .boolean arg span =>
    let core := arg.asCondition
    ⟨core.value, core.events ++
      [.note .simplify ("boolean(" ++ core.value.text ++ ") used as a boolean"),
       .replacement .boolean core.value.kind span]⟩
  | e => .of e

/-- The note on a call whose argument is known. -/
def callFolded (fn : Builtin) (v : Value) : Event :=
  .note .preEvaluate (fn.name ++ "(" ++ v.text ++ ")")

/-- The boolean of an expression. A literal is folded, and what yields one boolean already is
left alone. -/
def optimizeBoolean (arg : Expr) (span : Span) : Attempt Expr :=
  let core := arg.asCondition
  Attempt.after core.events <|
    match core.value with
    | .literal v =>
      match v.ebv span with
      | .error e => .fail (.eval e)
      | .ok b =>
        Attempt.after [callFolded .boolean v] <|
          .lift (replaced .boolean span (.literal (.ofTruth b)))
    | e =>
      if e.type = .booleanOne then
        Attempt.after [.note .simplify ("boolean(" ++ e.text ++ ") is already boolean")] <|
          .lift (replaced .boolean span e)
      else .ok (.call .boolean e span)

/-- The negation of an expression. A literal is folded, and a double negation is the boolean of
what it negates. -/
def optimizeNot (arg : Expr) (span : Span) : Attempt Expr :=
  let core := arg.asCondition
  Attempt.after core.events <|
    match core.value with
    | .literal v =>
      match v.ebv span with
      | .error e => .fail (.eval e)
      | .ok b =>
        Attempt.after [callFolded .not v] <| .lift (replaced .negation span (.ofBool !b.value))
    | .call .not inner _ =>
      Attempt.after [.note .simplify ("not(not(" ++ inner.text ++ "))")] <|
        (optimizeBoolean inner span).andThen fun e => .lift (replaced .negation span e)
    | e => .ok (.call .not e span)

def optimizeCall : Builtin → Expr → Span → Attempt Expr
  | .boolean => optimizeBoolean
  | .not => optimizeNot

/-- Builds a call of a built-in function, which takes one argument. -/
def buildCall (fn : Builtin) (args : List Expr) (span : Span) : Attempt Expr :=
  match args with
  | [arg] => optimizeCall fn arg span
  | _ => .fail (.arity fn.name 1 args.length span)

/-! ## Casts -/

/-- The types whose casts do nothing to an item of the type. -/
def Atom.isElidable : Atom → Bool
  | .boolean | .float | .double | .qname | .anyUri => true
  | _ => false

/-- A cast to `target` does nothing to a value of type `found`. -/
def castIsVoid (found target : SeqType) : Bool :=
  target.atom.isElidable &&
    (found = target || (found.atom = target.atom && found.isOne && target.atMostOne))

def optimizeCast (operand : Expr) (target : SeqType) (span : Span) : Attempt Expr :=
  match operand with
  | .literal v =>
    match v.cast target span with
    | .error e => .fail (.eval e)
    | .ok w =>
      Attempt.after [.note .preEvaluate (v.text ++ " cast as " ++ target.text)] <|
        .lift (replaced .cast span (.literal w))
  | e =>
    if castIsVoid e.type target then
      Attempt.after [.note .elide ("remove cast of " ++ e.text ++ " to " ++ target.text)] <|
        .lift (replaced .cast span e)
    else .ok (.cast e target span)

/-! ## Comparisons -/

def optimizeCompare (op : CompareOp) (left right : Expr) (span : Span) : Attempt Expr :=
  match left, right with
  | .literal v, .literal w =>
    match v.compare op span w with
    | .error e => .fail (.eval e)
    | .ok b =>
      Attempt.after [.note .preEvaluate (Expr.compare op left right span).text] <|
        .lift (replaced .comparison span (.ofBool b))
  | l, r => .ok (.compare op l r span)

def optimizeRange (bounds : Bounds) (operand : Expr) (span : Span) : Attempt Expr :=
  let node := Expr.range bounds operand span
  if bounds.isEmpty then
    Attempt.after [.note .preEvaluate ("empty range " ++ node.text)] <|
      .lift (replaced .range span (.ofBool false))
  else
    match operand with
    | .literal v =>
      match bounds.test span v with
      | .error e => .fail (.eval e)
      | .ok b =>
        Attempt.after [.note .preEvaluate node.text] <|
          .lift (replaced .range span (.ofBool b))
    | _ => .ok node

/-- The answer of a position test that does not depend on the position. -/
def positionConstant? (min max : Int64) : Option Bool :=
  if max < min || max < 1 then some false
  else if min ≤ 1 && max = Int64.maxValue then some true
  else none

def optimizePosition (min max : Int64) (span : Span) : Attempt Expr :=
  match positionConstant? min max with
  | none => .ok (.position min max span)
  | some b =>
    Attempt.after [.note .preEvaluate (positionText min max)] <|
      .lift (replaced .position span (.ofBool b))

/-! ## Switches -/

/-- What is known of a switch before it runs. -/
inductive Choice where
  | unknown
  | fallback
  | branch (result : Expr)

/-- Finds the branch for an item as long as the case values are literals. -/
def chooseCase (i : Option Item) (span : Span) : List (Expr × Expr) → Except EvalError Choice
  | [] => .ok .fallback
  | (.literal w, r) :: cs =>
    match w.single? span with
    | .error e => .error e
    | .ok j => if matchesCase i j then .ok (.branch r) else chooseCase i span cs
  | _ :: _ => .ok .unknown

/-- Takes the branch of a switch whose operand, and every case value up to the match, is a
literal. -/
def optimizeSwitch (operand : Expr) (cases : List (Expr × Expr)) (default : Expr) (span : Span) :
    Attempt Expr :=
  let taken (v : Value) (e : Expr) : Attempt Expr :=
    Attempt.after [.note .preEvaluate ("switch (" ++ v.text ++ ")")] <|
      .lift (replaced .switch span e)
  match operand with
  | .literal v =>
    match v.single? span with
    | .error e => .fail (.eval e)
    | .ok i =>
      match chooseCase i span cases with
      | .error e => .fail (.eval e)
      | .ok .unknown => .ok (.switch operand cases default span)
      | .ok .fallback => taken v default
      | .ok (.branch r) => taken v r
  | e => .ok (.switch e cases default span)

/-! ## Merging -/

/-- Two position tests that must both hold are one test of the overlap. -/
def mergePositions (a b c d : Int64) (span : Span) : Noted Expr :=
  let min := if a < c then c else a
  let max := if d < b then d else b
  ⟨if max < min then .ofBool false else .position min max span,
    [.note .simplify ("intersect " ++ positionText a b ++ " and " ++ positionText c d)]⟩

/-- Two range tests of one single-valued operand that must both hold are one test of the
overlap. -/
def mergeRanges (b c : Bounds) (e f : Expr) (span : Span) : Option (Noted Expr) :=
  if !e.same f || e.isRandom || !e.type.atMostOne then none
  else
    let both := b.inter c
    some ⟨if both.isEmpty then .ofBool false else .range both e span,
      [.note .simplify ("intersect " ++ b.text e.text ++ " and " ++ c.text f.text)]⟩

/-- Two equality tests of one operand against literals, of which either may hold, are one test
against both literals. -/
def mergeEqualities (op op' : CompareOp) (l r l' r' : Expr) (span : Span) :
    Option (Noted Expr) :=
  if op != .eq || op' != .eq || !l.same l' || l.isRandom then none
  else
    match r, r' with
    | .literal v, .literal w =>
      some ⟨.compare .eq l (.literal (v ++ w)) span,
        [.note .simplify ("merge " ++ (Expr.compare op l r span).text ++ " or " ++
          (Expr.compare op' l' r' span).text)]⟩
    | _, _ => none

/-- Two neighbouring operands of a connective as one, where there is a rule for it. -/
def Expr.merge? : Connective → Expr → Expr → Option (Noted Expr)
  | .conjunction, .position a b span, .position c d _ => some (mergePositions a b c d span)
  | .conjunction, .range b e span, .range c f _ => mergeRanges b c e f span
  | .disjunction, .compare op l r span, .compare op' l' r' _ =>
    mergeEqualities op op' l r l' r' span
  | _, _, _ => none

end QueryExpr
