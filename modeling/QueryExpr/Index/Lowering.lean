import QueryExpr.Index.Basic

/-!
# QueryExpr.Index.Lowering

The plan that an index runs in place of a tree: a conjunction intersects and a disjunction unites
the matches of its operands.
-/

namespace QueryExpr

/-- A plan, and the operands whose lookup the index was asked for, in order. -/
structure Lowering (α : Type) where
  plan : α
  asked : List Expr

mutual

def Expr.lower (index : Index) : Expr → Lowering IndexPlan
  | .connective .conjunction es _ =>
    let r := lowerAll index es
    ⟨.intersect r.plan, r.asked⟩
  | .connective .disjunction [e] _ => e.lower index
  | .connective .disjunction es _ =>
    let r := lowerAll index es
    ⟨.union r.plan, r.asked⟩
  | .literal v =>
    if v.isEmpty || v.same (.ofBool false) then ⟨.empty, []⟩
    else ⟨index.lookup (.literal v), [.literal v]⟩
  | e => ⟨index.lookup e, [e]⟩

def lowerAll (index : Index) : List Expr → Lowering (List IndexPlan)
  | [] => ⟨[], []⟩
  | e :: es =>
    let r := e.lower index
    let rs := lowerAll index es
    ⟨r.plan :: rs.plan, r.asked ++ rs.asked⟩

end

end QueryExpr
