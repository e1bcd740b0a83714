import QueryExpr.Compile.Tree
import QueryExpr.Config

/-!
# QueryExpr.Compile.Context

The context of a compilation: its configuration, its scope, and what is kept of the events.

* `CompileContext.record` — what one event leaves behind under the configuration.
* `CompileContext.run` — a noted result, with all its events recorded.

Everything that compiles is a noted result before it meets a context, so its value cannot depend
on one; a context only ever grows.
-/

namespace QueryExpr

/-- A note that was kept. -/
structure Diagnostic where
  category : Category
  message : String
deriving DecidableEq

def Diagnostic.text (d : Diagnostic) : String := "[" ++ d.category.label ++ "] " ++ d.message

/-- A replacement that was kept. -/
structure Replacement where
  source : Kind
  target : Kind
  span : Span
deriving DecidableEq

def Replacement.text (r : Replacement) : String :=
  r.source.name ++ " -> " ++ r.target.name ++ " at " ++ r.span.text

/-- A line of the trace. -/
inductive TraceLine where
  | note (d : Diagnostic)
  | replacement (r : Replacement)
  | analysis (accessible : Bool)
  | cancelled
deriving DecidableEq

/-- A line with its level and target in front and its field at the end. -/
def TraceLine.text : TraceLine → String
  | .note d => "DEBUG quern::compile " ++ d.message ++ " note=" ++ d.category.label
  | .replacement r => "DEBUG quern::compile rewrite " ++ r.text
  | .analysis accessible =>
    "DEBUG quern::compile index analysis accessible=" ++ (if accessible then "true" else "false")
  | .cancelled => "TRACE quern::eval evaluation cancelled"

/-- The context of a compilation; the oldest entry of each log comes first. -/
structure CompileContext where
  config : Config
  scope : Scope
  diagnostics : List Diagnostic
  replacements : List Replacement
  trace : List TraceLine

namespace CompileContext

/-- A context in which nothing has been compiled. -/
def start (config : Config) (scope : Scope) : CompileContext := ⟨config, scope, [], [], []⟩

/-- What one event leaves behind. -/
def record (c : CompileContext) : Event → CompileContext
  | .note category message =>
    let d : Diagnostic := ⟨category, message⟩
    { c with
      diagnostics := if c.config.diagnostics.enabled then c.diagnostics ++ [d] else c.diagnostics
      trace := if c.config.diagnostics.log then c.trace ++ [.note d] else c.trace }
  | .replacement source target span =>
    let r : Replacement := ⟨source, target, span⟩
    if c.config.diagnostics.replacements then
      { c with
        replacements := c.replacements ++ [r]
        trace := if c.config.diagnostics.log then c.trace ++ [.replacement r] else c.trace }
    else c
  | .analysed accessible => { c with trace := c.trace ++ [.analysis accessible] }

def recordAll (c : CompileContext) (events : List Event) : CompileContext := events.foldl record c

/-- A result in a context. -/
def run {α : Type} (c : CompileContext) (x : Noted α) : α × CompileContext :=
  (x.value, c.recordAll x.events)

/-! ## Compiling in a context -/

def compile (c : CompileContext) (checks : Checks) (e : Expr) :
    Except CompileError Expr × CompileContext :=
  c.run (e.compile checks)

def optimize (c : CompileContext) (e : Expr) : Except CompileError Expr × CompileContext :=
  c.run e.optimize

def asCondition (c : CompileContext) (e : Expr) : Expr × CompileContext := c.run e.asCondition

def inline (c : CompileContext) (e : Expr) (x : Var) (w : Expr) :
    Except CompileError (Revised Expr) × CompileContext :=
  c.run (e.inline x w)

def merge? (c : CompileContext) (k : Connective) (e f : Expr) : Option Expr × CompileContext :=
  match e.merge? k f with
  | none => (none, c)
  | some m => (some m.value, c.recordAll m.events)

/-- Builds and optimises a call of a built-in function. -/
def call (c : CompileContext) (fn : Builtin) (args : List Expr) (span : Span) :
    Except CompileError Expr × CompileContext :=
  c.run (buildCall fn args span)

/-- Builds the node that stands in for an operand that could not be compiled. -/
def park (c : CompileContext) (cause : CompileError) (span : Span) (type : SeqType) :
    Expr × CompileContext :=
  c.run (QueryExpr.park cause span type)

/-- Records that an expression takes the place of a node. -/
def replace (c : CompileContext) (source : Kind) (span : Span) (e : Expr) :
    Expr × CompileContext :=
  c.run (replaced source span e)

def note (c : CompileContext) (category : Category) (message : String) : CompileContext :=
  c.record (.note category message)

end CompileContext
end QueryExpr
