import QueryExpr.Compile.Context
import QueryExpr.Eval
import QueryExpr.Fingerprint
import QueryExpr.Index.Analysis
import QueryExpr.Index.Lowering

/-!
# QueryExpr.Query

Whole queries.

* `Expr.markTail` — marks the external calls whose result is the result of the query.
* `compileQuery`  — compiles a tree, marks tail calls, and asks an index, if there is one.
* `CompiledQuery` — what came of it; it can be evaluated any number of times.
-/

namespace QueryExpr

/-! ## Tail calls -/

mutual

/-- Marks the calls in tail position. The last operand of a connective is in tail position if it
yields one boolean anyway. -/
def Expr.markTail : Expr → Expr
  | .connective c es span => .connective c (markTailLast es) span
  | .switch e cs d span => .switch e (markTailCases cs) d.markTail span
  | .typeswitch e cs span => .typeswitch e (markTailTypeCases cs) span
  | .external fn es _ span => .external fn es true span
  | .cast e t span => .cast e t span
  | .call fn e span => .call fn e span
  | .compare op l r span => .compare op l r span
  | .range b e span => .range b e span
  | .position a b span => .position a b span
  | .literal v => .literal v
  | .var v span => .var v span
  | .failing c t span => .failing c t span

def markTailLast : List Expr → List Expr
  | [] => []
  | [e] => [if e.type = .booleanOne then e.markTail else e]
  | e :: es => e :: markTailLast es

def markTailCases : List (Expr × Expr) → List (Expr × Expr)
  | [] => []
  | (v, r) :: cs => (v, r.markTail) :: markTailCases cs

def markTailTypeCases : List (CaseHead × Expr) → List (CaseHead × Expr)
  | [] => []
  | (h, r) :: cs => (h, r.markTail) :: markTailTypeCases cs

end

/-! ## Queries -/

/-- A question that was put to an index. -/
inductive Question where
  | info (e : Expr)
  | lookup (e : Expr)

structure CompiledQuery where
  root : Expr
  index : Option IndexPlan

namespace CompiledQuery

def plan (q : CompiledQuery) : Plan := ⟨q.root.describe, q.index⟩

def fingerprint (q : CompiledQuery) : String := q.plan.fingerprint

def eval {σ : Type} (q : CompiledQuery) (h : Host σ) (c : Context) (s : σ) :
    Except EvalError Value × σ :=
  q.root.eval h c s

end CompiledQuery

/-- A result and the questions on the way to it. -/
structure Asked (α : Type) where
  value : α
  questions : List Question

/-- What an index makes of a compiled tree. The tree of the analysis is taken over only if the
index can answer it. -/
def consultIndex (index : Index) (reorder : Bool) (root : Expr) : Noted (Asked CompiledQuery) :=
  let a := root.analyse index reorder
  match a.estimate with
  | some _ =>
    let l := a.value.lower index
    ⟨⟨⟨a.value, some l.plan⟩, a.asked.map .info ++ l.asked.map .lookup⟩,
      a.events ++ [.analysed true]⟩
  | none => ⟨⟨⟨root, none⟩, a.asked.map .info⟩, a.events ++ [.analysed false]⟩

/-- Compiles a query. The index is asked only if the configuration allows it. -/
def compileQuery (config : IndexConfig) (checks : Checks) (index : Option Index) (e : Expr) :
    Attempt (Asked CompiledQuery) :=
  (e.compile checks).andThen fun root =>
    match index with
    | some i =>
      if config.enabled then .lift (consultIndex i config.reorder root.markTail)
      else .ok ⟨⟨root.markTail, none⟩, []⟩
    | none => .ok ⟨⟨root.markTail, none⟩, []⟩

namespace CompileContext

/-- Compiles a query in a context. -/
def compileQuery (c : CompileContext) (checks : Checks) (index : Option Index) (e : Expr) :
    Except CompileError (Asked CompiledQuery) × CompileContext :=
  c.run (QueryExpr.compileQuery c.config.index checks index e)

/-- Analyses a compiled tree in a context; whether to reorder may differ from the configuration. -/
def analyse (c : CompileContext) (index : Index) (reorder : Option Bool) (e : Expr) :
    Analysis Nat Expr × CompileContext :=
  let a := e.analyse index (reorder.getD c.config.index.reorder)
  (a, c.recordAll a.events)

end CompileContext
end QueryExpr
