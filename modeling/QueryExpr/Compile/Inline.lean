import QueryExpr.Compile.Connective

/-!
# QueryExpr.Compile.Inline

Substitution for a variable, and the rules for typeswitches, which need it.

* `optimizeTypeswitch` — takes the case of a literal, and substitutes the literal in its result.
* `optimizeWith` — the rules of all nodes.
* `inlineWith` — substitution; a node is optimised again if something below it changed.
* `Expr.inline`, `Expr.optimize` — the two for callers.

The rules and the substitution call each other, through smaller and smaller typeswitches. So they
are written over a substitution `sub` for what lies inside a typeswitch, and `substitute` ties the
knot as often as typeswitches are nested.
-/

namespace QueryExpr

/-- A result and whether it differs from what it was made from. -/
structure Revised (α : Type) where
  value : α
  changed : Bool

/-- Substitution of a value for a variable. -/
abbrev Substitution := Var → Value → Expr → Attempt (Revised Expr)

/-! ## Typeswitches -/

/-- A case result that yields nothing, whatever it is applied to. -/
def Expr.isVacuous : Expr → Bool
  | .literal v => v.isEmpty
  | .failing _ _ _ => false
  | e => e.type.isEmpty && !e.isRandom

/-- Takes the result of a case that admits a literal. -/
def takeCase (sub : Substitution) (v : Value) (head : CaseHead) (result : Expr) : Attempt Expr :=
  Attempt.after [.note .preEvaluate
      ("typeswitch (" ++ v.text ++ ") " ++ head.text ++ " return " ++ result.text)] <|
    match head.var with
    | none => .ok result
    | some x =>
      Attempt.after [.note .inline (x.text ++ " := " ++ v.text)] <|
        (sub x v result).map (·.value)

def optimizeTypeswitch (sub : Substitution) (operand : Expr) (cases : List (CaseHead × Expr))
    (span : Span) : Attempt Expr :=
  let node := Expr.typeswitch operand cases span
  if (cases.all fun c => c.2.isVacuous) && !operand.isRandom then
    Attempt.after [.note .preEvaluate (node.text ++ " yields nothing")] <|
      .lift (replaced .typeswitch span (.literal []))
  else
    match operand with
    | .literal v =>
      match cases.find? fun c => c.1.admits v with
      | none => .ok node
      | some (head, result) =>
        (takeCase sub v head result).andThen fun e => .lift (replaced .typeswitch span e)
    | _ => .ok node

/-! ## All nodes -/

/-- Applies the rules of one node; its operands are optimised already. -/
def optimizeWith (sub : Substitution) : Expr → Attempt Expr
  | .connective c es span => optimizeConnective c es span
  | .switch e cs d span => optimizeSwitch e cs d span
  | .typeswitch e cs span => optimizeTypeswitch sub e cs span
  | .cast e t span => optimizeCast e t span
  | .call fn e span => optimizeCall fn e span
  | .compare op l r span => optimizeCompare op l r span
  | .range b e span => optimizeRange b e span
  | .position a b span => optimizePosition a b span
  | .literal v => .ok (.literal v)
  | .var v span => .ok (.var v span)
  | .external fn es tail span => .ok (.external fn es tail span)
  | .failing c t span => .ok (.failing c t span)

/-- A node over operands of which some may have changed. -/
def rebuilt (sub : Substitution) (changed : Bool) (node : Expr) : Attempt (Revised Expr) :=
  if changed then (optimizeWith sub node).map (⟨·, true⟩) else .ok ⟨node, false⟩

/-- The error of a substitution in an operand that is not evaluated first is parked there. -/
def parkedRevision (x : Attempt (Revised Expr)) (operand : Expr) : Noted (Revised Expr) :=
  match x.value with
  | .ok r => ⟨r, x.events⟩
  | .error cause => ((park cause operand.span operand.type).map (⟨·, true⟩)).after x.events

/-! ## Substitution -/

mutual

/-- Substitutes `w` for `x`. What is evaluated first may fail; errors elsewhere are parked. -/
def inlineWith (sub : Substitution) (x : Var) (w : Expr) : Expr → Attempt (Revised Expr)
  | .connective c es span =>
    (inlineOperands sub x w true es).andThen fun r =>
      rebuilt sub r.changed (.connective c r.value span)
  | .switch e cs d span =>
    (inlineWith sub x w e).andThen fun e' =>
      (Attempt.lift (inlineCases sub x w cs)).andThen fun cs' =>
        (Attempt.lift (parkedRevision (inlineWith sub x w d) d)).andThen fun d' =>
          rebuilt sub (e'.changed || cs'.changed || d'.changed)
            (.switch e'.value cs'.value d'.value span)
  | .typeswitch e cs span =>
    (inlineWith sub x w e).andThen fun e' =>
      (Attempt.lift (inlineTypeCases sub x w cs)).andThen fun cs' =>
        rebuilt sub (e'.changed || cs'.changed) (.typeswitch e'.value cs'.value span)
  | .cast e t span =>
    (inlineWith sub x w e).andThen fun r => rebuilt sub r.changed (.cast r.value t span)
  | .call fn e span =>
    (inlineWith sub x w e).andThen fun r => rebuilt sub r.changed (.call fn r.value span)
  | .compare op l r span =>
    (inlineWith sub x w l).andThen fun l' =>
      (Attempt.lift (parkedRevision (inlineWith sub x w r) r)).andThen fun r' =>
        rebuilt sub (l'.changed || r'.changed) (.compare op l'.value r'.value span)
  | .range b e span =>
    (inlineWith sub x w e).andThen fun r => rebuilt sub r.changed (.range b r.value span)
  | .var v span =>
    if v.same x then
      Attempt.after [.note .inline (v.text ++ " := " ++ w.text)] <|
        .lift ((replaced .var span w).map (⟨·, true⟩))
    else .ok ⟨.var v span, false⟩
  | .external fn es tail span =>
    (inlineOperands sub x w false es).map fun r => ⟨.external fn r.value tail span, r.changed⟩
  | .position a b span => .ok ⟨.position a b span, false⟩
  | .literal v => .ok ⟨.literal v, false⟩
  | .failing c t span => .ok ⟨.failing c t span, false⟩

/-- Substitutes in operands; the first may fail. -/
def inlineOperands (sub : Substitution) (x : Var) (w : Expr) (truncate : Bool) :
    List Expr → Attempt (Revised (List Expr))
  | [] => .ok ⟨[], false⟩
  | e :: es =>
    (inlineWith sub x w e).andThen fun r =>
      (Attempt.lift (inlineRest sub x w truncate es)).map fun rs =>
        ⟨r.value :: rs.value, r.changed || rs.changed⟩

/-- Substitutes in the operands after the first. With `truncate` those behind a parked error are
dropped, since evaluation never gets there. -/
def inlineRest (sub : Substitution) (x : Var) (w : Expr) (truncate : Bool) :
    List Expr → Noted (Revised (List Expr))
  | [] => .of ⟨[], false⟩
  | e :: es =>
    let r := inlineWith sub x w e
    match r.value with
    | .error cause =>
      Noted.after r.events <|
        (park cause e.span e.type).bind fun f =>
          if truncate then .of ⟨[f], true⟩
          else (inlineRest sub x w truncate es).map fun rs => ⟨f :: rs.value, true⟩
    | .ok r' =>
      Noted.after r.events <|
        (inlineRest sub x w truncate es).map fun rs =>
          ⟨r'.value :: rs.value, r'.changed || rs.changed⟩

def inlineCases (sub : Substitution) (x : Var) (w : Expr) :
    List (Expr × Expr) → Noted (Revised (List (Expr × Expr)))
  | [] => .of ⟨[], false⟩
  | (v, e) :: cs =>
    (parkedRevision (inlineWith sub x w v) v).bind fun v' =>
      (parkedRevision (inlineWith sub x w e) e).bind fun e' =>
        (inlineCases sub x w cs).map fun cs' =>
          ⟨(v'.value, e'.value) :: cs'.value, v'.changed || e'.changed || cs'.changed⟩

def inlineTypeCases (sub : Substitution) (x : Var) (w : Expr) :
    List (CaseHead × Expr) → Noted (Revised (List (CaseHead × Expr)))
  | [] => .of ⟨[], false⟩
  | (h, e) :: cs =>
    (parkedRevision (inlineWith sub x w e) e).bind fun e' =>
      (inlineTypeCases sub x w cs).map fun cs' =>
        ⟨(h, e'.value) :: cs'.value, e'.changed || cs'.changed⟩

end

/-- Substitution through at most so many typeswitches, one within the other. What lies deeper
keeps the variable and binds it to the value. -/
def substitute : Nat → Substitution
  | 0, x, v, e => .ok ⟨.typeswitch (.literal v) [(⟨some x, none⟩, e)] .unknown, true⟩
  | depth + 1, x, v, e => inlineWith (substitute depth) x (.literal v) e

/-- Substitutes `w` for every reference to `x`, also where a typeswitch binds `x` once more. -/
def Expr.inline (e : Expr) (x : Var) (w : Expr) : Attempt (Revised Expr) :=
  inlineWith (substitute (e.dispatchDepth + w.dispatchDepth)) x w e

/-- Applies the rules of one node; its operands are optimised already. -/
def Expr.optimize (e : Expr) : Attempt Expr := optimizeWith (substitute e.dispatchDepth) e

end QueryExpr
