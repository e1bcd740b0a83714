import QueryExpr.Expr.Text

/-!
# QueryExpr.Compile.Note

What compilation tells about its work.

* `Event` — a note, or the replacement of a node.
* `Noted α` — a result together with the events on the way to it, in order.
* `Attempt α` — a noted result that may be a compile error; events before the error are kept.

The rules of compilation produce all events; what becomes of them is for the compile context to
decide. So no rule can depend on whether anybody listens.
-/

namespace QueryExpr

/-- Categories of notes. -/
inductive Category where
  | flatten
  | remove
  | simplify
  | preEvaluate
  | negate
  | elide
  | inline
  | deferError
  | reorder
deriving DecidableEq

namespace Category

def all : List Category :=
  [.flatten, .remove, .simplify, .preEvaluate, .negate, .elide, .inline, .deferError, .reorder]

def label : Category → String
  | .flatten => "flatten"
  | .remove => "remove"
  | .simplify => "simplify"
  | .preEvaluate => "pre-evaluate"
  | .negate => "negate"
  | .elide => "elide"
  | .inline => "inline"
  | .deferError => "defer-error"
  | .reorder => "reorder"

end Category

/-- Something worth telling about a compilation. -/
inductive Event where
  | note (category : Category) (message : String)
  /-- A node of one kind gave way to a node of another. -/
  | replacement (source target : Kind) (span : Span)
  /-- An index analysis has ended. -/
  | analysed (accessible : Bool)
deriving DecidableEq

/-- A result and the events on the way to it. -/
structure Noted (α : Type) where
  value : α
  events : List Event

namespace Noted

variable {α β : Type}

/-- A result without events. -/
def of (a : α) : Noted α := ⟨a, []⟩

/-- Goes on with the result; events of both parts are kept in order. -/
def bind (x : Noted α) (f : α → Noted β) : Noted β :=
  let y := f x.value
  ⟨y.value, x.events ++ y.events⟩

def map (f : α → β) (x : Noted α) : Noted β := ⟨f x.value, x.events⟩

/-- The same result with more events in front. -/
def after (events : List Event) (x : Noted α) : Noted α := ⟨x.value, events ++ x.events⟩

end Noted

/-- A noted result that may be a compile error. -/
abbrev Attempt (α : Type) := Noted (Except CompileError α)

namespace Attempt

variable {α β : Type}

def ok (a : α) : Attempt α := ⟨.ok a, []⟩

def fail (e : CompileError) : Attempt α := ⟨.error e, []⟩

/-- Goes on with the result if there is one. -/
def andThen (x : Attempt α) (f : α → Attempt β) : Attempt β :=
  match x.value with
  | .error e => ⟨.error e, x.events⟩
  | .ok a =>
    let y := f a
    ⟨y.value, x.events ++ y.events⟩

def map (f : α → β) (x : Attempt α) : Attempt β := ⟨x.value.map f, x.events⟩

/-- The same attempt with more events in front. -/
def after (events : List Event) (x : Attempt α) : Attempt α := Noted.after events x

/-- A noted result that cannot fail, seen as one that might. -/
def lift (x : Noted α) : Attempt α := ⟨.ok x.value, x.events⟩

end Attempt

/-- Records that `e` takes the place of a node of another kind. -/
def replaced (source : Kind) (span : Span) (e : Expr) : Noted Expr :=
  ⟨e, [.replacement source e.kind span]⟩

/-- Parks a compile error in a node that stands in for an operand; it is raised if evaluation
reaches it. -/
def park (cause : CompileError) (span : Span) (type : SeqType) : Noted Expr :=
  ⟨.failing cause type span,
    [.note .deferError ("defer '" ++ cause.message ++ "' at " ++ span.text)]⟩

/-- Parks the error of an attempt on an operand, if there is one. -/
def Attempt.parked (x : Attempt Expr) (operand : Expr) : Noted Expr :=
  match x.value with
  | .ok e => ⟨e, x.events⟩
  | .error cause => (park cause operand.span operand.type).after x.events

end QueryExpr
