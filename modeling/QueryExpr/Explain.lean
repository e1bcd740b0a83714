import QueryExpr.Expr.Text
import QueryExpr.Index.Basic

/-!
# QueryExpr.Explain

Plans to look at: a tree of named nodes with attributes, and what an index would do.

* `PlanNode` — a node; its attributes are ordered by key, and a key occurs once.
* `Expr.describe` — the tree of an expression. Spans are not in it.
* `PlanNode.text` — one line per node, indented by depth.
-/

namespace QueryExpr

inductive PlanNode where
  | node (name : String) (attributes : List (String × String)) (children : List PlanNode)

instance : Inhabited PlanNode := ⟨.node "" [] []⟩

namespace PlanNode

def name : PlanNode → String
  | .node n _ _ => n

def attributes : PlanNode → List (String × String)
  | .node _ as _ => as

def children : PlanNode → List PlanNode
  | .node _ _ cs => cs

/-- A node without attributes and children. -/
def leaf (name : String) : PlanNode := .node name [] []

end PlanNode

/-- Puts an attribute in its place; one of the same key gives way. -/
def setAttribute (key value : String) : List (String × String) → List (String × String)
  | [] => [(key, value)]
  | (k, v) :: as =>
    if key < k then (key, value) :: (k, v) :: as
    else if key = k then (key, value) :: as
    else (k, v) :: setAttribute key value as

namespace PlanNode

def attr (key value : String) : PlanNode → PlanNode
  | .node n as cs => .node n (setAttribute key value as) cs

def attrs (kvs : List (String × String)) (p : PlanNode) : PlanNode :=
  kvs.foldl (fun p kv => p.attr kv.1 kv.2) p

def withChildren (children : List PlanNode) : PlanNode → PlanNode
  | .node n as cs => .node n as (cs ++ children)

end PlanNode

/-- A plan: the compiled tree, and what the index does if it answers the query. -/
structure Plan where
  root : PlanNode
  index : Option IndexPlan

/-! ## Expressions -/

/-- The name of a truth value. -/
def flagText (b : Bool) : String := if b then "true" else "false"

/-- What a node says about itself apart from its operands. -/
def Expr.attributes : Expr → List (String × String)
  | .cast _ t _ => [("type", t.text)]
  | .compare op _ _ _ => [("op", op.symbol)]
  | .range b _ _ =>
    [("min", b.min.text "inf"), ("max", b.max.text "inf"),
     ("min_inclusive", flagText b.minInclusive), ("max_inclusive", flagText b.maxInclusive)]
  | .position min max _ => [("min", toString min.toInt), ("max", toString max.toInt)]
  | .literal v => [("value", v.text), ("type", v.type.text)]
  | .var v _ => [("name", v.name), ("id", toString v.id)]
  | .external fn _ tail _ =>
    [("name", fn.name), ("type", fn.type.text), ("tail", flagText tail)]
  | .failing c _ _ => [("code", c.code), ("error", c.message)]
  | .connective _ _ _ => []
  | .switch _ _ _ _ => []
  | .typeswitch _ _ _ => []
  | .call _ _ _ => []

/-- The node of a typeswitch case over that of its result. -/
def CaseHead.describe (h : CaseHead) (result : PlanNode) : PlanNode :=
  let types := match h.type with | none => [] | some t => [("type", t.text)]
  let vars := match h.var with | none => [] | some v => [("var", v.name)]
  ((PlanNode.leaf (if h.type.isNone then "Default" else "Case")).attrs (types ++ vars)).withChildren
    [result]

/-- The node of an expression over the nodes of its operands. -/
def Expr.describeOver (e : Expr) (children : List PlanNode) : PlanNode :=
  ((PlanNode.leaf e.kind.name).attrs e.attributes).withChildren children

mutual

/-- The tree of an expression; operands stand in the order in which they are evaluated. -/
def Expr.describe : Expr → PlanNode
  | .connective c es span => (Expr.connective c es span).describeOver (describeAll es)
  | .switch e cs d span =>
    (Expr.switch e cs d span).describeOver (e.describe :: describeCases cs ++ [d.describe])
  | .typeswitch e cs span =>
    (Expr.typeswitch e cs span).describeOver (e.describe :: describeTypeCases cs)
  | .cast e t span => (Expr.cast e t span).describeOver [e.describe]
  | .call fn e span => (Expr.call fn e span).describeOver [e.describe]
  | .compare op l r span => (Expr.compare op l r span).describeOver [l.describe, r.describe]
  | .range b e span => (Expr.range b e span).describeOver [e.describe]
  | .external fn es tail span => (Expr.external fn es tail span).describeOver (describeAll es)
  | .position min max span => (Expr.position min max span).describeOver []
  | .literal v => (Expr.literal v).describeOver []
  | .var v span => (Expr.var v span).describeOver []
  | .failing c t span => (Expr.failing c t span).describeOver []

def describeAll : List Expr → List PlanNode
  | [] => []
  | e :: es => e.describe :: describeAll es

def describeCases : List (Expr × Expr) → List PlanNode
  | [] => []
  | (v, r) :: cs => v.describe :: r.describe :: describeCases cs

def describeTypeCases : List (CaseHead × Expr) → List PlanNode
  | [] => []
  | (h, r) :: cs => h.describe r.describe :: describeTypeCases cs

end

/-! ## Text -/

def attributesText (as : List (String × String)) : String :=
  String.join (as.map fun (k, v) => " " ++ k ++ "=" ++ v)

mutual

/-- One line per node; a node stands two columns to the right of its parent. -/
def PlanNode.textAt (depth : Nat) : PlanNode → String
  | .node n as cs =>
    "".pushn ' ' (2 * depth) ++ n ++ attributesText as ++ "\n" ++ nodesText (depth + 1) cs

def nodesText (depth : Nat) : List PlanNode → String
  | [] => ""
  | p :: ps => p.textAt depth ++ nodesText depth ps

end

def PlanNode.text (p : PlanNode) : String := p.textAt 0

end QueryExpr
