import QueryExpr.Span
import QueryExpr.Type.Sequence

/-!
# QueryExpr.Error

What can go wrong, by cause.

* `CastError`    — converting one item.
* `EvalError`    — running an expression; a parked compile error surfaces as `deferred`.
* `CompileError` — compiling an expression; an evaluation error met while folding is wrapped.

Each cause has a message, a code and, except for bare cast errors, a class. `same` compares two
causes without looking at where they arose.
-/

namespace QueryExpr

inductive CastError where
  | unsupported (source target : Atom)
  | invalidLexical (value : String) (target : Atom)
  | outOfRange (value : String) (target : Atom)
  | emptySequence (target : Atom)
deriving DecidableEq

mutual

inductive EvalError where
  | cast (cause : CastError)
  | fileList (path reason : String)
  | pattern (pattern reason : String)
  | type (expected found : String) (span : Span)
  | ebv (found : String) (span : Span)
  | noContext (span : Span)
  | unboundVariable (name : String) (span : Span)
  | cancelled
  | deferred (cause : CompileError)

inductive CompileError where
  | typeMismatch (expected found : String) (span : Span)
  | invalidCastTarget (target : SeqType) (span : Span)
  | malformedPattern (pattern reason : String) (span : Span)
  | arity (name : String) (expected found : Nat) (span : Span)
  | missingDefaultCase (span : Span)
  | eval (cause : EvalError)

end

instance : Inhabited EvalError := ⟨.cancelled⟩

instance : Inhabited CompileError := ⟨.eval .cancelled⟩

/-- When an error belongs to the text of a query, to the types in it, to the data, or to the
outside. -/
inductive ErrorClass where
  | static
  | type
  | dynamic
  | cancelled
deriving DecidableEq

def ErrorClass.text : ErrorClass → String
  | .static => "static"
  | .type => "type"
  | .dynamic => "dynamic"
  | .cancelled => "cancelled"

namespace CastError

def message : CastError → String
  | .unsupported source target => "cannot cast " ++ source.name ++ " to " ++ target.name
  | .invalidLexical value target =>
    "invalid lexical value for " ++ target.name ++ ": '" ++ value ++ "'"
  | .outOfRange value target => "value out of range for " ++ target.name ++ ": " ++ value
  | .emptySequence target => "empty sequence cannot be cast to " ++ target.name

def code : CastError → String
  | .unsupported _ _ => "XPTY0004"
  | .emptySequence _ => "XPTY0004"
  | .invalidLexical _ _ => "FORG0001"
  | .outOfRange _ _ => "FOCA0003"

end CastError

/-! ## Messages -/

mutual

def EvalError.message : EvalError → String
  | .cast cause => cause.message
  | .fileList path reason => "cannot list '" ++ path ++ "': " ++ reason
  | .pattern pattern reason => "invalid pattern '" ++ pattern ++ "': " ++ reason
  | .type expected found span =>
    "type error at " ++ span.text ++ ": expected " ++ expected ++ ", found " ++ found
  | .ebv found span =>
    "effective boolean value not defined for " ++ found ++ " at " ++ span.text
  | .noContext span => "no context item at " ++ span.text
  | .unboundVariable name span => "variable $" ++ name ++ " is not bound at " ++ span.text
  | .cancelled => "query evaluation cancelled"
  | .deferred cause => "deferred: " ++ cause.message

def CompileError.message : CompileError → String
  | .typeMismatch expected found span =>
    "type mismatch at " ++ span.text ++ ": expected " ++ expected ++ ", found " ++ found
  | .invalidCastTarget target span =>
    "invalid cast target at " ++ span.text ++ ": " ++ target.text
  | .malformedPattern pattern reason span =>
    "malformed pattern '" ++ pattern ++ "' at " ++ span.text ++ ": " ++ reason
  | .arity name expected found span =>
    name ++ "() at " ++ span.text ++ " expects " ++ toString expected ++
      " argument(s), found " ++ toString found
  | .missingDefaultCase span => "typeswitch at " ++ span.text ++ " has no default case"
  | .eval cause => cause.message

end

/-! ## Codes and classes -/

mutual

def EvalError.code : EvalError → String
  | .cast cause => cause.code
  | .fileList _ _ => "FILE0005"
  | .pattern _ _ => "FORX0002"
  | .type _ _ _ => "XPTY0004"
  | .ebv _ _ => "FORG0006"
  | .noContext _ => "XPDY0002"
  | .unboundVariable _ _ => "XPST0008"
  | .cancelled => "QRN0001"
  | .deferred cause => cause.code

def CompileError.code : CompileError → String
  | .typeMismatch _ _ _ => "XPTY0004"
  | .invalidCastTarget _ _ => "XPST0080"
  | .malformedPattern _ _ _ => "FORX0002"
  | .arity _ _ _ _ => "XPST0017"
  | .missingDefaultCase _ => "XPST0003"
  | .eval cause => cause.code

end

mutual

def EvalError.class : EvalError → ErrorClass
  | .cast _ => .type
  | .fileList _ _ => .dynamic
  | .pattern _ _ => .dynamic
  | .type _ _ _ => .type
  | .ebv _ _ => .type
  | .noContext _ => .dynamic
  | .unboundVariable _ _ => .static
  | .cancelled => .cancelled
  | .deferred cause => cause.class

def CompileError.class : CompileError → ErrorClass
  | .typeMismatch _ _ _ => .type
  | .invalidCastTarget _ _ => .static
  | .malformedPattern _ _ _ => .static
  | .arity _ _ _ _ => .static
  | .missingDefaultCase _ => .static
  | .eval cause => cause.class

end

/-! ## Comparison without places -/

mutual

def EvalError.same : EvalError → EvalError → Bool
  | .cast a, .cast b => a == b
  | .fileList p r, .fileList p' r' => p == p' && r == r'
  | .pattern p r, .pattern p' r' => p == p' && r == r'
  | .type e f _, .type e' f' _ => e == e' && f == f'
  | .ebv f _, .ebv f' _ => f == f'
  | .noContext _, .noContext _ => true
  | .unboundVariable n _, .unboundVariable n' _ => n == n'
  | .cancelled, .cancelled => true
  | .deferred a, .deferred b => a.same b
  | _, _ => false

def CompileError.same : CompileError → CompileError → Bool
  | .typeMismatch e f _, .typeMismatch e' f' _ => e == e' && f == f'
  | .invalidCastTarget t _, .invalidCastTarget t' _ => t == t'
  | .malformedPattern p r _, .malformedPattern p' r' _ => p == p' && r == r'
  | .arity n e f _, .arity n' e' f' _ => n == n' && e == e' && f == f'
  | .missingDefaultCase _, .missingDefaultCase _ => true
  | .eval a, .eval b => a.same b
  | _, _ => false

end

namespace EvalError

def isCancelled : EvalError → Bool
  | .cancelled => true
  | _ => false

/-- What a parked compile error raises when evaluation reaches it. An evaluation error comes back
as it was. -/
def ofParked : CompileError → EvalError
  | .eval cause => cause
  | cause => .deferred cause

end EvalError
end QueryExpr
