import QueryExpr.Expr.Match

/-!
# QueryExpr.Eval

Evaluation of an expression.

* `Host`    — the outside of an evaluation: whether it is cancelled, and what external functions do.
* `Context` — the bindings, the focus and the scoring switch; fixed while a node runs.
* `Expr.eval` — the value of an expression, or the first error.
* `Expr.ebv`  — its effective boolean value.

Operands run left to right and cancellation is asked for between them. The host has a state of its
own type, which is handed through in the order of the questions and calls.
-/

namespace QueryExpr

/-! ## The outside -/

/-- How an external function is called. -/
structure CallInfo where
  /-- The result of the call is the result of the whole query. -/
  tail : Bool
  span : Span
deriving DecidableEq

/-- The outside of an evaluation. `poll` answers whether the evaluation is cancelled. -/
structure Host (σ : Type) where
  poll : σ → Bool × σ
  invoke : ExternalFn → List Value → CallInfo → σ → Except EvalError Value × σ

/-- Goes on unless the evaluation is cancelled. -/
def Host.check {σ : Type} (h : Host σ) (s : σ) : Except EvalError Unit × σ :=
  match h.poll s with
  | (true, s) => (.error .cancelled, s)
  | (false, s) => (.ok (), s)

/-! ## Contexts -/

/-- The context item, its position counted from one, and the number of items. -/
structure Focus where
  item : Item
  position : Int64
  size : Int64
deriving DecidableEq

structure Context where
  /-- Values of variables, the innermost binding first. -/
  bindings : List (Nat × Value)
  focus : Option Focus
  scoring : Bool

namespace Context

/-- Nothing bound and no focus. -/
def empty (scoring : Bool) : Context := ⟨[], none, scoring⟩

def bind (c : Context) (id : Nat) (v : Value) : Context :=
  { c with bindings := (id, v) :: c.bindings }

def withFocus (c : Context) (f : Option Focus) : Context := { c with focus := f }

/-- The innermost binding of a variable. -/
def lookup (c : Context) (id : Nat) : Option Value :=
  (c.bindings.find? (·.1 == id)).map (·.2)

end Context

/-! ## Evaluation -/

section
variable {σ : Type}

mutual

/-- The value of an expression in a context. -/
def Expr.eval (h : Host σ) : Expr → Context → σ → Except EvalError Value × σ
  | .connective .conjunction es _, c, s => evalAll h es c .zero s
  | .connective .disjunction es _, c, s => evalAny h es c none s
  | .switch e cs d span, c, s =>
    match e.eval h c s with
    | (.error t, s) => (.error t, s)
    | (.ok v, s) =>
      match v.single? span with
      | .error t => (.error t, s)
      | .ok i =>
        match evalSwitch h i span cs c s with
        | (.error t, s) => (.error t, s)
        | (.ok (some w), s) => (.ok w, s)
        | (.ok none, s) => d.eval h c s
  | .typeswitch e cs span, c, s =>
    match e.eval h c s with
    | (.error t, s) => (.error t, s)
    | (.ok v, s) => evalTypeswitch h v span cs c s
  | .cast e target span, c, s =>
    match e.eval h c s with
    | (.error t, s) => (.error t, s)
    | (.ok v, s) => (v.cast target span, s)
  | .call fn e _, c, s =>
    match e.eval h c s with
    | (.error t, s) => (.error t, s)
    | (.ok v, s) =>
      match v.ebv e.span with
      | .error t => (.error t, s)
      | .ok b =>
        match fn with
        | .boolean => (.ok (.ofTruth b), s)
        | .not => (.ok (.ofBool !b.value), s)
  | .compare op l r span, c, s =>
    match l.eval h c s with
    | (.error t, s) => (.error t, s)
    | (.ok v, s) =>
      match r.eval h c s with
      | (.error t, s) => (.error t, s)
      | (.ok w, s) => ((v.compare op span w).map .ofBool, s)
  | .range b e span, c, s =>
    match e.eval h c s with
    | (.error t, s) => (.error t, s)
    | (.ok v, s) => ((b.test span v).map .ofBool, s)
  | .position min max span, c, s =>
    match c.focus with
    | none => (.error (.noContext span), s)
    | some f => (.ok (.ofBool (min ≤ f.position && f.position ≤ max)), s)
  | .literal v, _, s => (.ok v, s)
  | .var v span, c, s =>
    match c.lookup v.id with
    | none => (.error (.unboundVariable v.name span), s)
    | some w => (.ok w, s)
  | .external fn es tail span, c, s =>
    match evalArgs h es c s with
    | (.error t, s) => (.error t, s)
    | (.ok vs, s) => h.invoke fn vs ⟨tail, span⟩ s
  | .failing cause _ _, _, s => (.error (.ofParked cause), s)

/-- A conjunction: stops at the first operand that is false. With scoring on, the scores of the
operands so far are combined. -/
def evalAll (h : Host σ) : List Expr → Context → Score → σ → Except EvalError Value × σ
  | [], _, score, s =>
    (.ok (.ofTruth (if score.isZero then .plain true else .scored score)), s)
  | e :: es, c, score, s =>
    match h.check s with
    | (.error t, s) => (.error t, s)
    | (.ok _, s) =>
      match e.eval h c s with
      | (.error t, s) => (.error t, s)
      | (.ok v, s) =>
        match v.ebv e.span with
        | .error t => (.error t, s)
        | .ok b =>
          if b.value then
            evalAll h es c (if c.scoring then score.both b.score else score) s
          else (.ok (.ofBool false), s)

/-- A disjunction: an unscored operand that is true decides at once; a scored one lets the later
operands add to the score. `none` stands for no true operand so far. -/
def evalAny (h : Host σ) : List Expr → Context → Option Score → σ → Except EvalError Value × σ
  | [], _, score, s =>
    (.ok (.ofTruth (match score with | none => .plain false | some r => .scored r)), s)
  | e :: es, c, score, s =>
    match h.check s with
    | (.error t, s) => (.error t, s)
    | (.ok _, s) =>
      match e.eval h c s with
      | (.error t, s) => (.error t, s)
      | (.ok v, s) =>
        match v.ebv e.span with
        | .error t => (.error t, s)
        | .ok b =>
          if b.value then
            if b.score.isZero || !c.scoring then (.ok (.ofBool true), s)
            else evalAny h es c (some ((score.getD .zero).either b.score)) s
          else evalAny h es c score s

/-- The result of the first switch case whose value matches, or `none`. -/
def evalSwitch (h : Host σ) (i : Option Item) (span : Span) :
    List (Expr × Expr) → Context → σ → Except EvalError (Option Value) × σ
  | [], _, s => (.ok none, s)
  | (v, r) :: cs, c, s =>
    match h.check s with
    | (.error t, s) => (.error t, s)
    | (.ok _, s) =>
      match v.eval h c s with
      | (.error t, s) => (.error t, s)
      | (.ok w, s) =>
        match w.single? span with
        | .error t => (.error t, s)
        | .ok j =>
          if matchesCase i j then
            match r.eval h c s with
            | (.error t, s) => (.error t, s)
            | (.ok w, s) => (.ok (some w), s)
          else evalSwitch h i span cs c s

/-- The result of the first typeswitch case that admits the value, with its variable bound. -/
def evalTypeswitch (h : Host σ) (v : Value) (span : Span) :
    List (CaseHead × Expr) → Context → σ → Except EvalError Value × σ
  | [], _, s => (.error (.type "a matching typeswitch case" v.type.text span), s)
  | (head, r) :: cs, c, s =>
    match h.check s with
    | (.error t, s) => (.error t, s)
    | (.ok _, s) =>
      if head.admits v then
        match head.var with
        | none => r.eval h c s
        | some x => r.eval h (c.bind x.id v) s
      else evalTypeswitch h v span cs c s

/-- The values of the arguments of a call. -/
def evalArgs (h : Host σ) : List Expr → Context → σ → Except EvalError (List Value) × σ
  | [], _, s => (.ok [], s)
  | e :: es, c, s =>
    match h.check s with
    | (.error t, s) => (.error t, s)
    | (.ok _, s) =>
      match e.eval h c s with
      | (.error t, s) => (.error t, s)
      | (.ok v, s) =>
        match evalArgs h es c s with
        | (.error t, s) => (.error t, s)
        | (.ok vs, s) => (.ok (v :: vs), s)

end

/-- The effective boolean value of an expression. -/
def Expr.ebv (h : Host σ) (e : Expr) (c : Context) (s : σ) : Except EvalError Truth × σ :=
  match e.eval h c s with
  | (.error t, s) => (.error t, s)
  | (.ok v, s) => (v.ebv e.span, s)

end

end QueryExpr
