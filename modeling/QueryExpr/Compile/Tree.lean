import QueryExpr.Compile.Inline

/-!
# QueryExpr.Compile.Tree

Compilation of whole trees: the operands of a node first, then the rules of the node.

An error in what is evaluated first is an error of the node. An error anywhere else may never be
reached, so it is parked where it arose.
-/

namespace QueryExpr

/-- What external functions ask of their compiled arguments. -/
abbrev Checks := ExternalFn → List Expr → Span → Except CompileError Unit

/-- A type that a cast may name: one castable atom, exactly once or at most once. -/
def SeqType.isCastTarget (t : SeqType) : Bool :=
  t.atom.isCastable && t.occurs.min ≤ 1 && t.occurs.max == some 1

/-- A typeswitch must end in its default case. -/
def endsInDefault (cases : List (CaseHead × Expr)) : Bool :=
  match cases.getLast? with
  | none => false
  | some (head, _) => head.type.isNone

/-- The rules of a cast whose operand is compiled; the operand must not be known to be long. -/
def checkedCast (operand : Expr) (target : SeqType) (span : Span) : Attempt Expr :=
  if 1 < operand.type.occurs.min then
    .fail (.typeMismatch (Atom.anyAtomic.name ++ "?") operand.type.text span)
  else optimizeCast operand target span

mutual

def Expr.compile (checks : Checks) : Expr → Attempt Expr
  | .connective c es span =>
    (compileOperands checks es).andThen fun es => optimizeConnective c es span
  | .switch e cs d span =>
    (e.compile checks).andThen fun e' =>
      (Attempt.lift (compileCases checks cs)).andThen fun cs' =>
        (Attempt.lift ((d.compile checks).parked d)).andThen fun d' =>
          optimizeSwitch e' cs' d' span
  | .typeswitch e cs span =>
    if endsInDefault cs then
      (e.compile checks).andThen fun e' =>
        (Attempt.lift (compileTypeCases checks cs)).andThen fun cs' =>
          (Expr.typeswitch e' cs' span).optimize
    else .fail (.missingDefaultCase span)
  | .cast e t span =>
    if t.isCastTarget then (e.compile checks).andThen fun e' => checkedCast e' t span
    else .fail (.invalidCastTarget t span)
  | .call fn e span => (e.compile checks).andThen fun e' => optimizeCall fn e' span
  | .compare op l r span =>
    (l.compile checks).andThen fun l' =>
      (Attempt.lift ((r.compile checks).parked r)).andThen fun r' => optimizeCompare op l' r' span
  | .range b e span => (e.compile checks).andThen fun e' => optimizeRange b e' span
  | .position a b span => optimizePosition a b span
  | .literal v => .ok (.literal v)
  | .var v span => .ok (.var v span)
  | .external fn es tail span =>
    (compileOperands checks es).andThen fun es' =>
      match checks fn es' span with
      | .error t => .fail t
      | .ok _ => .ok (.external fn es' tail span)
  | .failing c t span => .ok (.failing c t span)

/-- Compiles operands that are evaluated from left to right. -/
def compileOperands (checks : Checks) : List Expr → Attempt (List Expr)
  | [] => .ok []
  | e :: es =>
    (e.compile checks).andThen fun e' =>
      (Attempt.lift (compileRest checks es)).map (e' :: ·)

def compileRest (checks : Checks) : List Expr → Noted (List Expr)
  | [] => .of []
  | e :: es => ((e.compile checks).parked e).bind fun e' => (compileRest checks es).map (e' :: ·)

def compileCases (checks : Checks) : List (Expr × Expr) → Noted (List (Expr × Expr))
  | [] => .of []
  | (v, r) :: cs =>
    ((v.compile checks).parked v).bind fun v' =>
      ((r.compile checks).parked r).bind fun r' =>
        (compileCases checks cs).map ((v', r') :: ·)

def compileTypeCases (checks : Checks) : List (CaseHead × Expr) → Noted (List (CaseHead × Expr))
  | [] => .of []
  | (h, r) :: cs =>
    ((r.compile checks).parked r).bind fun r' => (compileTypeCases checks cs).map ((h, r') :: ·)

end

end QueryExpr
