import QueryExpr.Expr.Basic

/-!
# QueryExpr.Expr.Text

The text of an expression, close to how it is written in a query. A connective among the operands
of a connective stands in parentheses.
-/

namespace QueryExpr

/-- The lower and the upper half of a range test, to be written around its operand. -/
def Bounds.text (b : Bounds) (operand : String) : String :=
  b.min.text "inf" ++ (if b.minInclusive then " <= " else " < ") ++ operand ++
    (if b.maxInclusive then " <= " else " < ") ++ b.max.text "inf"

/-- A test of the position in the focus; the greatest integer stands for no upper bound. -/
def positionText (min max : Int64) : String :=
  if min = max then "position() = " ++ toString min.toInt
  else if max = Int64.maxValue then "position() >= " ++ toString min.toInt
  else "position() = " ++ toString min.toInt ++ " to " ++ toString max.toInt

def CaseHead.text (h : CaseHead) : String :=
  match h.var, h.type with
  | some v, some t => "case " ++ v.text ++ " as " ++ t.text
  | none, some t => "case " ++ t.text
  | some v, none => "default " ++ v.text
  | none, none => "default"

/-- Parentheses around a connective. -/
def parenthesized (k : Kind) (s : String) : String :=
  if k = .conjunction || k = .disjunction then "(" ++ s ++ ")" else s

mutual

def Expr.text : Expr → String
  | .connective c es _ => operandsText (" " ++ c.keyword ++ " ") es
  | .switch e cs d _ =>
    "switch (" ++ e.text ++ ")" ++ casesText cs ++ " default return " ++ d.text
  | .typeswitch e cs _ => "typeswitch (" ++ e.text ++ ")" ++ typeCasesText cs
  | .cast e t _ => e.text ++ " cast as " ++ t.text
  | .call fn e _ => fn.name ++ "(" ++ e.text ++ ")"
  | .compare op l r _ => l.text ++ " " ++ op.symbol ++ " " ++ r.text
  | .range b e _ => b.text e.text
  | .position a b _ => positionText a b
  | .literal v => v.text
  | .var v _ => v.text
  | .external fn es _ _ => fn.name ++ "(" ++ argumentsText es ++ ")"
  | .failing c _ _ => "error(\"" ++ c.code ++ "\")"

/-- The operands of a connective with its keyword between them. -/
def operandsText (keyword : String) : List Expr → String
  | [] => ""
  | [e] => parenthesized e.kind e.text
  | e :: es => parenthesized e.kind e.text ++ keyword ++ operandsText keyword es

def argumentsText : List Expr → String
  | [] => ""
  | [e] => e.text
  | e :: es => e.text ++ ", " ++ argumentsText es

def casesText : List (Expr × Expr) → String
  | [] => ""
  | (v, r) :: cs => " case " ++ v.text ++ " return " ++ r.text ++ casesText cs

def typeCasesText : List (CaseHead × Expr) → String
  | [] => ""
  | (h, r) :: cs => " " ++ h.text ++ " return " ++ r.text ++ typeCasesText cs

end

end QueryExpr
