import QueryExpr.Toml.Scalar

/-!
# QueryExpr.Toml.Document

TOML documents as lists of statements.

* `Value`     — a truth value, an array, an inline table, or anything else.
* `Statement` — a table header, or an entry.
* `read?`     — the statements of a document, if it is well formed.

A path has at most `pathLimit` keys, and at most `depthLimit` brackets are open at once. Whether
statements agree with each other is for their reader to decide; only the entries of an inline
table are compared here.
-/

namespace QueryExpr.Toml

inductive Value where
  | bool (b : Bool)
  | other
  | array (items : List Value)
  | table (entries : List (List String × Value))

instance : Inhabited Value := ⟨.other⟩

inductive Statement where
  | table (path : List String)
  | tableArray (path : List String)
  | entry (path : List String) (value : Value)

/-! ## Keys -/

def isBare (c : Char) : Bool :=
  isDigit c || ('a' ≤ c && c ≤ 'z') || ('A' ≤ c && c ≤ 'Z') || c == '_' || c == '-'

def key? : List Char → Option (String × List Char)
  | '"' :: cs => (quoted? false .text [] cs).map fun (k, r) => (String.ofList k, r)
  | '\'' :: cs => (literal? false [] cs).map fun (k, r) => (String.ofList k, r)
  | cs =>
    let k := cs.takeWhile isBare
    if k.isEmpty then none else some (String.ofList k, cs.dropWhile isBare)

/-- Keys with dots between them, at most so many, and the white space around them. -/
def keys? : Nat → List Char → Option (List String × List Char)
  | 0, _ => none
  | n + 1, cs =>
    match key? (skipSpaces cs) with
    | none => none
    | some (k, r) =>
      match skipSpaces r with
      | '.' :: r => (keys? n r).map fun (ks, r) => (k :: ks, r)
      | r => some ([k], r)

def pathLimit : Nat := 80

def path? (cs : List Char) : Option (List String × List Char) := keys? pathLimit cs

/-! ## Values -/

/-- Whether some path leads into or past another. -/
def clash : List (List String) → Bool
  | [] => false
  | p :: ps => ps.any (fun q => p.isPrefixOf q || q.isPrefixOf p) || clash ps

/-- A value without quotes and brackets. -/
def plain? (cs : List Char) : Option (Value × List Char) :=
  let (text, rest) := words cs
  if text == "true".toList then some (.bool true, rest)
  else if text == "false".toList then some (.bool false, rest)
  else if isScalar text then some (.other, rest)
  else none

/-- Reads a path, an equals sign and a value; `skip` passes over what may stand around the sign. -/
def pair? (skip : List Char → List Char) (readValue : List Char → Option (Value × List Char))
    (cs : List Char) : Option ((List String × Value) × List Char) :=
  match path? cs with
  | none => none
  | some (p, r) =>
    match skip r with
    | '=' :: r => (readValue (skip r)).map fun (v, r) => ((p, v), r)
    | _ => none

/-- Reads at most so many parts up to the closing bracket. There is a comma between two parts, and
there may be one behind the last. -/
def parts? {α : Type} (readPart : List Char → Option (α × List Char)) (closing : Char) :
    Nat → List Char → Option (List α × List Char)
  | 0, _ => none
  | n + 1, cs =>
    match skipBlank false cs with
    | [] => none
    | c :: r =>
      if c == closing then some ([], r)
      else
        match readPart (c :: r) with
        | none => none
        | some (a, r) =>
          match skipBlank false r with
          | [] => none
          | c :: r =>
            if c == closing then some ([a], r)
            else if c == ',' then (parts? readPart closing n r).map fun (as, r) => (a :: as, r)
            else none

/-- Reads a value, in which at most so many brackets are open at once. -/
def value? (depth : Nat) (cs : List Char) : Option (Value × List Char) :=
  match cs with
  | '"' :: '"' :: '"' :: cs => (quoted? true .text [] cs).map fun (_, r) => (.other, r)
  | '"' :: cs => (quoted? false .text [] cs).map fun (_, r) => (.other, r)
  | '\'' :: '\'' :: '\'' :: cs => (literal? true [] cs).map fun (_, r) => (.other, r)
  | '\'' :: cs => (literal? false [] cs).map fun (_, r) => (.other, r)
  | '[' :: cs =>
    match depth with
    | 0 => none
    | n + 1 => (parts? (value? n) ']' (cs.length + 1) cs).map fun (vs, r) => (.array vs, r)
  | '\x7b' :: cs =>
    match depth with
    | 0 => none
    | n + 1 =>
      match parts? (pair? (skipBlank false) (value? n)) '\x7d' (cs.length + 1) cs with
      | none => none
      | some (es, r) => if clash (es.map (·.1)) then none else some (.table es, r)
  | cs => plain? cs

def depthLimit : Nat := 80

/-! ## Statements -/

/-- Reads one statement and the end of its line; outside brackets an entry stands on one line. -/
def statement? : List Char → Option (Statement × List Char)
  | '[' :: '[' :: cs =>
    match path? cs with
    | some (p, ']' :: ']' :: r) => (lineEnd? r).map fun r => (.tableArray p, r)
    | _ => none
  | '[' :: cs =>
    match path? cs with
    | some (p, ']' :: r) => (lineEnd? r).map fun r => (.table p, r)
    | _ => none
  | cs =>
    match pair? skipSpaces (value? depthLimit) cs with
    | some ((p, v), r) => (lineEnd? r).map fun r => (.entry p v, r)
    | none => none

/-- Reads at most so many lines. -/
def lines? : Nat → List Char → Option (List Statement)
  | 0, _ => none
  | n + 1, cs =>
    match skipSpaces cs with
    | [] => some []
    | c :: r =>
      if ['\n', '\r', '#'].contains c then
        match lineEnd? (c :: r) with
        | none => none
        | some r => lines? n r
      else
        match statement? (c :: r) with
        | none => none
        | some (s, r) => (lines? n r).map (s :: ·)

/-- The statements of a document; a byte order mark in front of it is skipped. -/
def read? (text : String) : Option (List Statement) :=
  let cs := match text.toList with
    | '\ufeff' :: cs => cs
    | cs => cs
  lines? (cs.length + 1) cs

end QueryExpr.Toml
