import QueryExpr.Compile.Context

/-!
# QueryExpr.Compile.Stepwise

Compilation with the context at hand in every step.

* `Compiling α`, `Trying α` — a step that reads and changes the context, and one that may fail.
* `info`, `park`, `replaceWith` — what a rule may tell; it is recorded, or dropped, at once.
* `Stepwise.compile`, `optimize`, `asCondition`, `inline`, `merge?` — the operations on expressions.

The rules are those of the other modules, but nothing in the types keeps them from looking at the
configuration, the scope or the logs. `Proofs.Stepwise` shows that they do what the noted rules
do whose events are recorded afterwards.
-/

namespace QueryExpr

/-- A step of compilation, which may read the context and change it. -/
abbrev Compiling := StateM CompileContext

/-- A step that may fail. What was recorded until then is kept. -/
abbrev Trying := ExceptT CompileError Compiling

/-- An error found while a value is computed ahead of evaluation. -/
def tryNow {α : Type} : Except EvalError α → Trying α
  | .error t => throw (.eval t)
  | .ok a => pure a

namespace Stepwise

/-! ## Services of the context -/

/-- Records a note; the message is made only if somebody listens. -/
def info (category : Category) (message : Unit → String) : Compiling Unit := do
  let cfg := (← get).config.diagnostics
  if cfg.enabled || cfg.log then
    let d : Diagnostic := ⟨category, message ()⟩
    if cfg.log then
      modify fun c => { c with trace := c.trace ++ [.note d] }
    if cfg.enabled then
      modify fun c => { c with diagnostics := c.diagnostics ++ [d] }

/-- Parks a compile error in a node that stands in for an operand. -/
def park (cause : CompileError) (span : Span) (type : SeqType) : Compiling Expr := do
  info .deferError fun _ => "defer '" ++ cause.message ++ "' at " ++ span.text
  return .failing cause type span

/-- Records that `new` takes the place of a node of another kind. -/
def replaceWith (source : Kind) (span : Span) (new : Expr) : Compiling Expr := do
  let cfg := (← get).config.diagnostics
  if cfg.replacements then
    let r : Replacement := ⟨source, new.kind, span⟩
    if cfg.log then
      modify fun c => { c with trace := c.trace ++ [.replacement r] }
    modify fun c => { c with replacements := c.replacements ++ [r] }
  return new

/-- What became of an operand whose failure must wait for evaluation. -/
def deferred (operand : Expr) (step : Trying Expr) : Compiling Expr := do
  match ← step.run with
  | .ok e => return e
  | .error cause => park cause operand.span operand.type

/-! ## Single nodes -/

def asCondition : Expr → Compiling Expr
  | .call .boolean arg span => do
    let core ← asCondition arg
    info .simplify fun _ => "boolean(" ++ core.text ++ ") used as a boolean"
    replaceWith .boolean span core
  | e => return e

def optimizeBoolean (arg : Expr) (span : Span) : Trying Expr := do
  match ← asCondition arg with
  | .literal v =>
    let b ← tryNow (v.ebv span)
    info .preEvaluate fun _ => Builtin.boolean.name ++ "(" ++ v.text ++ ")"
    replaceWith .boolean span (.literal (.ofTruth b))
  | e =>
    if e.type = .booleanOne then
      info .simplify fun _ => "boolean(" ++ e.text ++ ") is already boolean"
      replaceWith .boolean span e
    else return .call .boolean e span

def optimizeNot (arg : Expr) (span : Span) : Trying Expr := do
  match ← asCondition arg with
  | .literal v =>
    let b ← tryNow (v.ebv span)
    info .preEvaluate fun _ => Builtin.not.name ++ "(" ++ v.text ++ ")"
    replaceWith .negation span (.ofBool !b.value)
  | .call .not inner _ =>
    info .simplify fun _ => "not(not(" ++ inner.text ++ "))"
    let e ← optimizeBoolean inner span
    replaceWith .negation span e
  | e => return .call .not e span

def optimizeCall : Builtin → Expr → Span → Trying Expr
  | .boolean => optimizeBoolean
  | .not => optimizeNot

def optimizeCast (operand : Expr) (target : SeqType) (span : Span) : Trying Expr :=
  match operand with
  | .literal v => do
    let w ← tryNow (v.cast target span)
    info .preEvaluate fun _ => v.text ++ " cast as " ++ target.text
    replaceWith .cast span (.literal w)
  | e =>
    if castIsVoid e.type target then do
      info .elide fun _ => "remove cast of " ++ e.text ++ " to " ++ target.text
      replaceWith .cast span e
    else return .cast e target span

def optimizeCompare (op : CompareOp) (left right : Expr) (span : Span) : Trying Expr :=
  match left, right with
  | .literal v, .literal w => do
    let b ← tryNow (v.compare op span w)
    info .preEvaluate fun _ => (Expr.compare op left right span).text
    replaceWith .comparison span (.ofBool b)
  | l, r => return .compare op l r span

def optimizeRange (bounds : Bounds) (operand : Expr) (span : Span) : Trying Expr :=
  let node := Expr.range bounds operand span
  if bounds.isEmpty then do
    info .preEvaluate fun _ => "empty range " ++ node.text
    replaceWith .range span (.ofBool false)
  else
    match operand with
    | .literal v => do
      let b ← tryNow (bounds.test span v)
      info .preEvaluate fun _ => node.text
      replaceWith .range span (.ofBool b)
    | _ => return node

def optimizePosition (min max : Int64) (span : Span) : Trying Expr :=
  match positionConstant? min max with
  | none => return .position min max span
  | some b => do
    info .preEvaluate fun _ => positionText min max
    replaceWith .position span (.ofBool b)

def optimizeSwitch (operand : Expr) (cases : List (Expr × Expr)) (default : Expr) (span : Span) :
    Trying Expr :=
  match operand with
  | .literal v => do
    let taken (e : Expr) : Trying Expr := do
      info .preEvaluate fun _ => "switch (" ++ v.text ++ ")"
      replaceWith .switch span e
    let i ← tryNow (v.single? span)
    match ← tryNow (chooseCase i span cases) with
    | .unknown => return .switch operand cases default span
    | .fallback => taken default
    | .branch r => taken r
  | e => return .switch e cases default span

/-! ## Merging -/

def mergePositions (a b c d : Int64) (span : Span) : Compiling Expr := do
  let min := if a < c then c else a
  let max := if d < b then d else b
  info .simplify fun _ => "intersect " ++ positionText a b ++ " and " ++ positionText c d
  return if max < min then .ofBool false else .position min max span

def mergeRanges (b c : Bounds) (e f : Expr) (span : Span) : Compiling (Option Expr) := do
  if !e.same f || e.isRandom || !e.type.atMostOne then return none
  let both := b.inter c
  info .simplify fun _ => "intersect " ++ b.text e.text ++ " and " ++ c.text f.text
  return some (if both.isEmpty then .ofBool false else .range both e span)

def mergeEqualities (op op' : CompareOp) (l r l' r' : Expr) (span : Span) :
    Compiling (Option Expr) := do
  if op != .eq || op' != .eq || !l.same l' || l.isRandom then return none
  match r, r' with
  | .literal v, .literal w =>
    info .simplify fun _ => "merge " ++ (Expr.compare op l r span).text ++ " or " ++
      (Expr.compare op' l' r' span).text
    return some (.compare .eq l (.literal (v ++ w)) span)
  | _, _ => return none

def merge? : Connective → Expr → Expr → Compiling (Option Expr)
  | .conjunction, .position a b span, .position c d _ => some <$> mergePositions a b c d span
  | .conjunction, .range b e span, .range c f _ => mergeRanges b c e f span
  | .disjunction, .compare op l r span, .compare op' l' r' _ =>
    mergeEqualities op op' l r l' r' span
  | _, _, _ => return none

/-! ## Connectives -/

/-- Takes operands off a queue, folds literals, and puts the operands of a nested connective of
the same kind in front of the queue. Each turn takes a node away, so there are at most as many
turns as nodes. -/
def keepOperands (k : Connective) (span : Span) :
    Nat → List Expr → List Expr → Bool → Trying (List Expr)
  | 0, queue, kept, _ => return kept ++ queue
  | _ + 1, [], kept, _ => return kept
  | fuel + 1, child :: queue, kept, leading => do
    match ← asCondition child with
    | .connective k' es span' =>
      if k' = k then
        info .flatten fun _ => "flatten nested '" ++ k.keyword ++ "'"
        keepOperands k span fuel (es ++ queue) kept leading
      else keepOperands k span fuel queue (kept ++ [.connective k' es span']) false
    | .literal v =>
      match v.ebv span with
      | .error t =>
        if leading then throw (.eval t)
        else return kept ++ [← park (.eval t) span v.type]
      | .ok b =>
        if b.value = k.absorbing then
          info .preEvaluate fun _ => "'" ++ k.keyword ++ "' decided by " ++ v.text
          return kept ++ [.ofBool k.absorbing]
        else
          info .remove fun _ => "remove " ++ v.text ++ " from '" ++ k.keyword ++ "'"
          keepOperands k span fuel queue kept false
    | core => keepOperands k span fuel queue (kept ++ [core]) false

/-- Adds operands to those before them, but none that is among them already, unless it may yield
different results. -/
def addUnique (k : Connective) (unique : List Expr) : List Expr → Compiling (List Expr)
  | [] => return unique
  | e :: es => do
    if !e.isRandom && unique.any e.same then
      info .remove fun _ => "remove duplicate " ++ e.text ++ " from '" ++ k.keyword ++ "'"
      addUnique k unique es
    else addUnique k (unique ++ [e]) es

/-- Adds operands to those before them; one that combines with the last of these takes its
place. -/
def addMerged (k : Connective) (merged : List Expr) : List Expr → Compiling (List Expr)
  | [] => return merged
  | e :: es => do
    let combined ← match merged.getLast? with
      | some last => merge? k last e
      | none => pure none
    match combined with
    | some m => addMerged k (merged.dropLast ++ [m]) es
    | none => addMerged k (merged ++ [e]) es

/-- Optimises a connective; rounds as in the noted rules. -/
def rounds : Nat → Connective → List Expr → Span → Trying Expr
  | 0, k, es, span => return .connective k es span
  | fuel + 1, k, es, span => do
    match ← keepOperands k span (sizeList es + 1) es [] true with
    | [] => replaceWith k.kind span (.ofBool !k.absorbing)
    | [.literal v] => replaceWith k.kind span (.literal v)
    | kept =>
      let unique ← addUnique k [] kept
      let merged ← addMerged k [] unique
      if merged.length ≠ unique.length then
        info .simplify fun _ => "merge operands of '" ++ k.keyword ++ "' (" ++
          toString unique.length ++ " -> " ++ toString merged.length ++ ")"
        rounds fuel k merged span
      else
        match merged with
        | [e] =>
          let only ← optimizeBoolean e span
          replaceWith k.kind span only
        | merged =>
          match negated? merged with
          | some args =>
            info .negate fun _ => "factor out negation of '" ++ k.keyword ++ "'"
            let opposite ← rounds fuel k.opposite args span
            let negation ← optimizeNot opposite span
            replaceWith k.kind span negation
          | none => return .connective k merged span

def optimizeConnective (k : Connective) (es : List Expr) (span : Span) : Trying Expr :=
  rounds (sizeList es + 1) k es span

/-! ## Typeswitches and all nodes -/

/-- Substitution of a value for a variable. -/
abbrev Substitute := Var → Value → Expr → Trying (Revised Expr)

def optimizeTypeswitch (sub : Substitute) (operand : Expr) (cases : List (CaseHead × Expr))
    (span : Span) : Trying Expr :=
  let node := Expr.typeswitch operand cases span
  if (cases.all fun c => c.2.isVacuous) && !operand.isRandom then do
    info .preEvaluate fun _ => node.text ++ " yields nothing"
    replaceWith .typeswitch span (.literal [])
  else
    match operand with
    | .literal v =>
      match cases.find? fun c => c.1.admits v with
      | none => return node
      | some (head, result) => do
        info .preEvaluate fun _ =>
          "typeswitch (" ++ v.text ++ ") " ++ head.text ++ " return " ++ result.text
        let taken ← match head.var with
          | none => pure result
          | some x => do
            info .inline fun _ => x.text ++ " := " ++ v.text
            pure (← sub x v result).value
        replaceWith .typeswitch span taken
    | _ => return node

def optimizeWith (sub : Substitute) : Expr → Trying Expr
  | .connective k es span => optimizeConnective k es span
  | .switch e cs d span => optimizeSwitch e cs d span
  | .typeswitch e cs span => optimizeTypeswitch sub e cs span
  | .cast e t span => optimizeCast e t span
  | .call fn e span => optimizeCall fn e span
  | .compare op l r span => optimizeCompare op l r span
  | .range b e span => optimizeRange b e span
  | .position a b span => optimizePosition a b span
  | .literal v => return .literal v
  | .var v span => return .var v span
  | .external fn es tail span => return .external fn es tail span
  | .failing c t span => return .failing c t span

/-! ## Substitution -/

def rebuilt (sub : Substitute) (changed : Bool) (node : Expr) : Trying (Revised Expr) := do
  if changed then return ⟨← optimizeWith sub node, true⟩
  else return ⟨node, false⟩

/-- What became of an operand under a substitution whose failure must wait for evaluation. -/
def deferredRevision (operand : Expr) (step : Trying (Revised Expr)) :
    Compiling (Revised Expr) := do
  match ← step.run with
  | .ok r => return r
  | .error cause => return ⟨← park cause operand.span operand.type, true⟩

mutual

def inlineWith (sub : Substitute) (x : Var) (w : Expr) : Expr → Trying (Revised Expr)
  | .connective k es span => do
    let r ← inlineOperands sub x w true es
    rebuilt sub r.changed (.connective k r.value span)
  | .switch e cs d span => do
    let e' ← inlineWith sub x w e
    let cs' ← inlineCases sub x w cs
    let d' ← deferredRevision d (inlineWith sub x w d)
    rebuilt sub (e'.changed || cs'.changed || d'.changed)
      (.switch e'.value cs'.value d'.value span)
  | .typeswitch e cs span => do
    let e' ← inlineWith sub x w e
    let cs' ← inlineTypeCases sub x w cs
    rebuilt sub (e'.changed || cs'.changed) (.typeswitch e'.value cs'.value span)
  | .cast e t span => do
    let r ← inlineWith sub x w e
    rebuilt sub r.changed (.cast r.value t span)
  | .call fn e span => do
    let r ← inlineWith sub x w e
    rebuilt sub r.changed (.call fn r.value span)
  | .compare op l r span => do
    let l' ← inlineWith sub x w l
    let r' ← deferredRevision r (inlineWith sub x w r)
    rebuilt sub (l'.changed || r'.changed) (.compare op l'.value r'.value span)
  | .range b e span => do
    let r ← inlineWith sub x w e
    rebuilt sub r.changed (.range b r.value span)
  | .var v span => do
    if v.same x then
      info .inline fun _ => v.text ++ " := " ++ w.text
      return ⟨← replaceWith .var span w, true⟩
    else return ⟨.var v span, false⟩
  | .external fn es tail span => do
    let r ← inlineOperands sub x w false es
    return ⟨.external fn r.value tail span, r.changed⟩
  | .position a b span => return ⟨.position a b span, false⟩
  | .literal v => return ⟨.literal v, false⟩
  | .failing c t span => return ⟨.failing c t span, false⟩

def inlineOperands (sub : Substitute) (x : Var) (w : Expr) (truncate : Bool) :
    List Expr → Trying (Revised (List Expr))
  | [] => return ⟨[], false⟩
  | e :: es => do
    let r ← inlineWith sub x w e
    let rs ← inlineRest sub x w truncate es
    return ⟨r.value :: rs.value, r.changed || rs.changed⟩

def inlineRest (sub : Substitute) (x : Var) (w : Expr) (truncate : Bool) :
    List Expr → Compiling (Revised (List Expr))
  | [] => return ⟨[], false⟩
  | e :: es => do
    match ← (inlineWith sub x w e).run with
    | .error cause =>
      let f ← park cause e.span e.type
      if truncate then return ⟨[f], true⟩
      else
        let rs ← inlineRest sub x w truncate es
        return ⟨f :: rs.value, true⟩
    | .ok r =>
      let rs ← inlineRest sub x w truncate es
      return ⟨r.value :: rs.value, r.changed || rs.changed⟩

def inlineCases (sub : Substitute) (x : Var) (w : Expr) :
    List (Expr × Expr) → Compiling (Revised (List (Expr × Expr)))
  | [] => return ⟨[], false⟩
  | (v, e) :: cs => do
    let v' ← deferredRevision v (inlineWith sub x w v)
    let e' ← deferredRevision e (inlineWith sub x w e)
    let cs' ← inlineCases sub x w cs
    return ⟨(v'.value, e'.value) :: cs'.value, v'.changed || e'.changed || cs'.changed⟩

def inlineTypeCases (sub : Substitute) (x : Var) (w : Expr) :
    List (CaseHead × Expr) → Compiling (Revised (List (CaseHead × Expr)))
  | [] => return ⟨[], false⟩
  | (h, e) :: cs => do
    let e' ← deferredRevision e (inlineWith sub x w e)
    let cs' ← inlineTypeCases sub x w cs
    return ⟨(h, e'.value) :: cs'.value, e'.changed || cs'.changed⟩

end

/-- Substitution through at most so many typeswitches, one within the other. -/
def substitute : Nat → Substitute
  | 0, x, v, e => return ⟨.typeswitch (.literal v) [(⟨some x, none⟩, e)] .unknown, true⟩
  | depth + 1, x, v, e => inlineWith (substitute depth) x (.literal v) e

def inline (e : Expr) (x : Var) (w : Expr) : Trying (Revised Expr) :=
  inlineWith (substitute (e.dispatchDepth + w.dispatchDepth)) x w e

def optimize (e : Expr) : Trying Expr := optimizeWith (substitute e.dispatchDepth) e

/-! ## Whole trees -/

def checkedCast (operand : Expr) (target : SeqType) (span : Span) : Trying Expr :=
  if 1 < operand.type.occurs.min then
    throw (.typeMismatch (Atom.anyAtomic.name ++ "?") operand.type.text span)
  else optimizeCast operand target span

mutual

def compile (checks : Checks) : Expr → Trying Expr
  | .connective k es span => do
    let es ← compileOperands checks es
    optimizeConnective k es span
  | .switch e cs d span => do
    let e' ← compile checks e
    let cs' ← compileCases checks cs
    let d' ← deferred d (compile checks d)
    optimizeSwitch e' cs' d' span
  | .typeswitch e cs span => do
    if endsInDefault cs then
      let e' ← compile checks e
      let cs' ← compileTypeCases checks cs
      optimize (.typeswitch e' cs' span)
    else throw (.missingDefaultCase span)
  | .cast e t span => do
    if t.isCastTarget then
      let e' ← compile checks e
      checkedCast e' t span
    else throw (.invalidCastTarget t span)
  | .call fn e span => do
    let e' ← compile checks e
    optimizeCall fn e' span
  | .compare op l r span => do
    let l' ← compile checks l
    let r' ← deferred r (compile checks r)
    optimizeCompare op l' r' span
  | .range b e span => do
    let e' ← compile checks e
    optimizeRange b e' span
  | .position a b span => optimizePosition a b span
  | .literal v => return .literal v
  | .var v span => return .var v span
  | .external fn es tail span => do
    let es' ← compileOperands checks es
    match checks fn es' span with
    | .error t => throw t
    | .ok _ => return .external fn es' tail span
  | .failing c t span => return .failing c t span

def compileOperands (checks : Checks) : List Expr → Trying (List Expr)
  | [] => return []
  | e :: es => do
    let e' ← compile checks e
    let es' ← compileRest checks es
    return e' :: es'

def compileRest (checks : Checks) : List Expr → Compiling (List Expr)
  | [] => return []
  | e :: es => do
    let e' ← deferred e (compile checks e)
    let es' ← compileRest checks es
    return e' :: es'

def compileCases (checks : Checks) : List (Expr × Expr) → Compiling (List (Expr × Expr))
  | [] => return []
  | (v, r) :: cs => do
    let v' ← deferred v (compile checks v)
    let r' ← deferred r (compile checks r)
    let cs' ← compileCases checks cs
    return (v', r') :: cs'

def compileTypeCases (checks : Checks) :
    List (CaseHead × Expr) → Compiling (List (CaseHead × Expr))
  | [] => return []
  | (h, r) :: cs => do
    let r' ← deferred r (compile checks r)
    let cs' ← compileTypeCases checks cs
    return (h, r') :: cs'

end

end Stepwise
end QueryExpr
