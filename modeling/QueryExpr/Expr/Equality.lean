import QueryExpr.Expr.Basic

/-!
# QueryExpr.Expr.Equality

Structural equality of expressions. It looks at neither spans nor tail marks; variables are
compared by number, external functions by name, and numbers by value, so that not-a-number
differs from itself.
-/

namespace QueryExpr

/-- Equality of optional variables. -/
def sameVar? : Option Var → Option Var → Bool
  | none, none => true
  | some v, some w => v.same w
  | _, _ => false

def CaseHead.same (h k : CaseHead) : Bool := sameVar? h.var k.var && h.type == k.type

mutual

def Expr.same : Expr → Expr → Bool
  | .connective c es _, .connective c' es' _ => c == c' && sameList es es'
  | .switch e cs d _, .switch e' cs' d' _ => e.same e' && sameCases cs cs' && d.same d'
  | .typeswitch e cs _, .typeswitch e' cs' _ => e.same e' && sameTypeCases cs cs'
  | .cast e t _, .cast e' t' _ => e.same e' && t == t'
  | .call fn e _, .call fn' e' _ => fn == fn' && e.same e'
  | .compare op l r _, .compare op' l' r' _ => op == op' && l.same l' && r.same r'
  | .range b e _, .range b' e' _ => b.same b' && e.same e'
  | .position a b _, .position a' b' _ => a == a' && b == b'
  | .literal v, .literal v' => v.same v'
  | .var v _, .var v' _ => v.same v'
  | .external fn es _ _, .external fn' es' _ _ => fn.name == fn'.name && sameList es es'
  | .failing c t _, .failing c' t' _ => c.same c' && t == t'
  | _, _ => false
termination_by structural e => e

def sameList : List Expr → List Expr → Bool
  | [], [] => true
  | e :: es, e' :: es' => e.same e' && sameList es es'
  | _, _ => false
termination_by structural es => es

def sameCases : List (Expr × Expr) → List (Expr × Expr) → Bool
  | [], [] => true
  | (v, r) :: cs, (v', r') :: cs' => v.same v' && r.same r' && sameCases cs cs'
  | _, _ => false
termination_by structural cs => cs

def sameTypeCases : List (CaseHead × Expr) → List (CaseHead × Expr) → Bool
  | [], [] => true
  | (h, r) :: cs, (h', r') :: cs' => h.same h' && r.same r' && sameTypeCases cs cs'
  | _, _ => false
termination_by structural cs => cs

end

end QueryExpr
