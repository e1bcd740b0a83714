import QueryExpr.Compare
import QueryExpr.Scope

/-!
# QueryExpr.Expr.Basic

Expressions.

* `Expr` — a closed set of node kinds; each node but a literal knows where it was written.
* `Expr.kind`, `Expr.span`, `Expr.children` — what every node has.
* `Expr.type` — the static result type.
* `Expr.isRandom` — two evaluations may differ.

`connective` holds the operands of a conjunction or a disjunction. `failing` stands in for an
operand that could not be compiled; it keeps the cause and the type of what it replaced.
-/

namespace QueryExpr

/-! ## Parts of expressions -/

inductive Connective where
  | conjunction
  | disjunction
deriving DecidableEq

namespace Connective

def keyword : Connective → String
  | .conjunction => "and"
  | .disjunction => "or"

def opposite : Connective → Connective
  | .conjunction => .disjunction
  | .disjunction => .conjunction

/-- The truth value that decides a connective whatever its other operands are. -/
def absorbing : Connective → Bool
  | .conjunction => false
  | .disjunction => true

end Connective

inductive Builtin where
  | boolean
  | not
deriving DecidableEq

def Builtin.name : Builtin → String
  | .boolean => "boolean"
  | .not => "not"

/-- The interval of a range test. -/
structure Bounds where
  min : Double
  minInclusive : Bool
  max : Double
  maxInclusive : Bool
deriving DecidableEq

namespace Bounds

/-- No number lies within the bounds. -/
def isEmpty (b : Bounds) : Bool :=
  b.max.less b.min || (b.min.equal b.max && !(b.minInclusive && b.maxInclusive)) ||
    b.min.isNaN || b.max.isNaN

def contains (b : Bounds) (x : Double) : Bool :=
  (if b.minInclusive then b.min.atMost x else b.min.less x) &&
    (if b.maxInclusive then x.atMost b.max else x.less b.max)

/-- The overlap of two intervals. Where two bounds are equal, both must include it. -/
def inter (b c : Bounds) : Bounds where
  min := if b.min.less c.min then c.min else b.min
  minInclusive :=
    if b.min.less c.min then c.minInclusive
    else if c.min.less b.min then b.minInclusive
    else b.minInclusive && c.minInclusive
  max := if c.max.less b.max then c.max else b.max
  maxInclusive :=
    if c.max.less b.max then c.maxInclusive
    else if b.max.less c.max then b.maxInclusive
    else b.maxInclusive && c.maxInclusive

def same (b c : Bounds) : Bool :=
  b.min.equal c.min && b.minInclusive == c.minInclusive &&
    b.max.equal c.max && b.maxInclusive == c.maxInclusive

end Bounds

/-- What is known of an external function before it is called. Its behaviour belongs to the host
of an evaluation; `key` tells the host which function is meant. -/
structure ExternalFn where
  key : Nat
  name : String
  type : SeqType
  /-- Two calls with equal arguments have equal results. -/
  deterministic : Bool
deriving DecidableEq

/-- What a typeswitch case asks for, and the variable that its result sees. A case without a type
is the default. -/
structure CaseHead where
  var : Option Var
  type : Option SeqType
deriving DecidableEq

def CaseHead.admits (h : CaseHead) (v : Value) : Bool :=
  match h.type with
  | none => true
  | some t => t.admits v

/-! ## Expressions -/

inductive Expr where
  | connective (c : Connective) (operands : List Expr) (span : Span)
  | switch (operand : Expr) (cases : List (Expr × Expr)) (default : Expr) (span : Span)
  | typeswitch (operand : Expr) (cases : List (CaseHead × Expr)) (span : Span)
  | cast (operand : Expr) (target : SeqType) (span : Span)
  | call (fn : Builtin) (arg : Expr) (span : Span)
  | compare (op : CompareOp) (left right : Expr) (span : Span)
  | range (bounds : Bounds) (operand : Expr) (span : Span)
  | position (min max : Int64) (span : Span)
  | literal (value : Value)
  | var (v : Var) (span : Span)
  | external (fn : ExternalFn) (args : List Expr) (tail : Bool) (span : Span)
  | failing (cause : CompileError) (type : SeqType) (span : Span)

/-- The kinds of expressions, as they are named in plans. -/
inductive Kind where
  | conjunction
  | disjunction
  | switch
  | typeswitch
  | cast
  | boolean
  | negation
  | comparison
  | range
  | position
  | literal
  | var
  | external
  | failing
deriving DecidableEq

def Kind.name : Kind → String
  | .conjunction => "And"
  | .disjunction => "Or"
  | .switch => "Switch"
  | .typeswitch => "TypeSwitch"
  | .cast => "Cast"
  | .boolean => "FnBoolean"
  | .negation => "FnNot"
  | .comparison => "CmpG"
  | .range => "CmpR"
  | .position => "Pos"
  | .literal => "Literal"
  | .var => "VarRef"
  | .external => "Call"
  | .failing => "Failing"

def Connective.kind : Connective → Kind
  | .conjunction => .conjunction
  | .disjunction => .disjunction

def Builtin.kind : Builtin → Kind
  | .boolean => .boolean
  | .not => .negation

namespace Expr

instance : Inhabited Expr := ⟨.literal []⟩

/-- A literal of one truth value. -/
def ofBool (b : Bool) : Expr := .literal (.ofBool b)

def kind : Expr → Kind
  | .connective c _ _ => c.kind
  | .switch _ _ _ _ => .switch
  | .typeswitch _ _ _ => .typeswitch
  | .cast _ _ _ => .cast
  | .call fn _ _ => fn.kind
  | .compare _ _ _ _ => .comparison
  | .range _ _ _ => .range
  | .position _ _ _ => .position
  | .literal _ => .literal
  | .var _ _ => .var
  | .external _ _ _ _ => .external
  | .failing _ _ _ => .failing

def span : Expr → Span
  | .connective _ _ s => s
  | .switch _ _ _ s => s
  | .typeswitch _ _ s => s
  | .cast _ _ s => s
  | .call _ _ s => s
  | .compare _ _ _ s => s
  | .range _ _ s => s
  | .position _ _ s => s
  | .literal _ => .unknown
  | .var _ s => s
  | .external _ _ _ s => s
  | .failing _ _ s => s

/-- The same node at another place; a literal has none. -/
def withSpan (s : Span) : Expr → Expr
  | .connective c es _ => .connective c es s
  | .switch e cs d _ => .switch e cs d s
  | .typeswitch e cs _ => .typeswitch e cs s
  | .cast e t _ => .cast e t s
  | .call fn e _ => .call fn e s
  | .compare op l r _ => .compare op l r s
  | .range b e _ => .range b e s
  | .position a b _ => .position a b s
  | .literal v => .literal v
  | .var v _ => .var v s
  | .external fn es t _ => .external fn es t s
  | .failing c t _ => .failing c t s

def literal? : Expr → Option Value
  | .literal v => some v
  | _ => none

/-- The direct parts of a node, in the order in which they are evaluated. -/
def children : Expr → List Expr
  | .connective _ es _ => es
  | .switch e cs d _ => e :: (cs.flatMap fun c => [c.1, c.2]) ++ [d]
  | .typeswitch e cs _ => e :: cs.map (·.2)
  | .cast e _ _ => [e]
  | .call _ e _ => [e]
  | .compare _ l r _ => [l, r]
  | .range _ e _ => [e]
  | .external _ es _ _ => es
  | .position _ _ _ => []
  | .literal _ => []
  | .var _ _ => []
  | .failing _ _ _ => []

end Expr

/-! ## Static types -/

mutual

/-- The static result type. A branching node has the join of its branches: a switch starts from
its default, a typeswitch from its first case. -/
def Expr.type : Expr → SeqType
  | .connective _ _ _ => .booleanOne
  | .switch _ cs d _ => switchType d.type cs
  | .typeswitch _ cs _ => typeswitchType none cs
  | .cast _ t _ => t
  | .call _ _ _ => .booleanOne
  | .compare _ _ _ _ => .booleanOne
  | .range _ _ _ => .booleanOne
  | .position _ _ _ => .booleanOne
  | .literal v => v.type
  | .var v _ => v.seqType
  | .external fn _ _ _ => fn.type
  | .failing _ t _ => t

/-- Joins the types of the case results to a type. -/
def switchType (t : SeqType) : List (Expr × Expr) → SeqType
  | [] => t
  | (_, r) :: cs => switchType (t.join r.type) cs

/-- Joins the types of the case results; without a case the type is empty. -/
def typeswitchType (t : Option SeqType) : List (CaseHead × Expr) → SeqType
  | [] => t.getD .empty
  | (_, r) :: cs =>
    match t with
    | none => typeswitchType (some r.type) cs
    | some t => typeswitchType (some (t.join r.type)) cs

end

/-! ## Chance -/

mutual

/-- Whether two evaluations may differ: an external function somewhere below is not
deterministic. -/
def Expr.isRandom : Expr → Bool
  | .connective _ es _ => anyRandom es
  | .switch e cs d _ => e.isRandom || anyCaseRandom cs || d.isRandom
  | .typeswitch e cs _ => e.isRandom || anyTypeCaseRandom cs
  | .cast e _ _ => e.isRandom
  | .call _ e _ => e.isRandom
  | .compare _ l r _ => l.isRandom || r.isRandom
  | .range _ e _ => e.isRandom
  | .external fn es _ _ => !fn.deterministic || anyRandom es
  | .position _ _ _ => false
  | .literal _ => false
  | .var _ _ => false
  | .failing _ _ _ => false

def anyRandom : List Expr → Bool
  | [] => false
  | e :: es => e.isRandom || anyRandom es

def anyCaseRandom : List (Expr × Expr) → Bool
  | [] => false
  | (v, r) :: cs => v.isRandom || r.isRandom || anyCaseRandom cs

def anyTypeCaseRandom : List (CaseHead × Expr) → Bool
  | [] => false
  | (_, r) :: cs => r.isRandom || anyTypeCaseRandom cs

end

/-! ## Size -/

mutual

/-- The number of nodes. -/
def Expr.size : Expr → Nat
  | .connective _ es _ => 1 + sizeList es
  | .switch e cs d _ => 1 + e.size + sizeCases cs + d.size
  | .typeswitch e cs _ => 1 + e.size + sizeTypeCases cs
  | .cast e _ _ => 1 + e.size
  | .call _ e _ => 1 + e.size
  | .compare _ l r _ => 1 + l.size + r.size
  | .range _ e _ => 1 + e.size
  | .external _ es _ _ => 1 + sizeList es
  | .position _ _ _ => 1
  | .literal _ => 1
  | .var _ _ => 1
  | .failing _ _ _ => 1

def sizeList : List Expr → Nat
  | [] => 0
  | e :: es => e.size + sizeList es

def sizeCases : List (Expr × Expr) → Nat
  | [] => 0
  | (v, r) :: cs => v.size + r.size + sizeCases cs

def sizeTypeCases : List (CaseHead × Expr) → Nat
  | [] => 0
  | (_, r) :: cs => r.size + sizeTypeCases cs

end

mutual

/-- How deep typeswitch nodes are nested. -/
def Expr.dispatchDepth : Expr → Nat
  | .connective _ es _ => dispatchDepthList es
  | .switch e cs d _ => max (max e.dispatchDepth (dispatchDepthCases cs)) d.dispatchDepth
  | .typeswitch e cs _ => 1 + max e.dispatchDepth (dispatchDepthTypeCases cs)
  | .cast e _ _ => e.dispatchDepth
  | .call _ e _ => e.dispatchDepth
  | .compare _ l r _ => max l.dispatchDepth r.dispatchDepth
  | .range _ e _ => e.dispatchDepth
  | .external _ es _ _ => dispatchDepthList es
  | .position _ _ _ => 0
  | .literal _ => 0
  | .var _ _ => 0
  | .failing _ _ _ => 0

def dispatchDepthList : List Expr → Nat
  | [] => 0
  | e :: es => max e.dispatchDepth (dispatchDepthList es)

def dispatchDepthCases : List (Expr × Expr) → Nat
  | [] => 0
  | (v, r) :: cs => max (max v.dispatchDepth r.dispatchDepth) (dispatchDepthCases cs)

def dispatchDepthTypeCases : List (CaseHead × Expr) → Nat
  | [] => 0
  | (_, r) :: cs => max r.dispatchDepth (dispatchDepthTypeCases cs)

end

end QueryExpr
