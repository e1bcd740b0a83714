import QueryExpr.Config
import QueryExpr.Toml.Document

/-!
# QueryExpr.Config.Read

Configurations from TOML documents.

* `Config.set?` — the settings, by section and field.
* `Config.read` — a configuration from the text of a document.
* `Config.load` — a configuration from a file.

A section is given once: by a header, by an inline table, by an array of its first fields in
order, or by entries with its name in front. All sections and fields may be left out; anything
unknown is an error.
-/

namespace QueryExpr

inductive ConfigError where
  /-- The document is no configuration. -/
  | parse
  | unreadable (path : String)
deriving DecidableEq

namespace Config

/-- The fields of a section in order. -/
def fields? : String → Option (List String)
  | "diagnostics" => some ["enabled", "log", "rewrites"]
  | "index" => some ["enabled", "reorder"]
  | "eval" => some ["scoring"]
  | _ => none

def set? (c : Config) (b : Bool) : String → String → Option Config
  | "diagnostics", "enabled" => some { c with diagnostics := { c.diagnostics with enabled := b } }
  | "diagnostics", "log" => some { c with diagnostics := { c.diagnostics with log := b } }
  | "diagnostics", "rewrites" =>
    some { c with diagnostics := { c.diagnostics with replacements := b } }
  | "index", "enabled" => some { c with index := { c.index with enabled := b } }
  | "index", "reorder" => some { c with index := { c.index with reorder := b } }
  | "eval", "scoring" => some { c with eval := { c.eval with scoring := b } }
  | _, _ => none

/-- How far a document has been read. -/
structure Reading where
  config : Config
  /-- The section of the last header. -/
  current : Option String
  /-- Sections that may get no more entries but under their header. -/
  closed : List String
  /-- Sections that were given by entries with their name in front. -/
  dotted : List String
  /-- The fields that were given. -/
  given : List (String × String)

namespace Reading

def start : Reading := ⟨{}, none, [], [], []⟩

/-- Gives a field, which must not have been given. -/
def give (r : Reading) (sect field : String) (b : Bool) : Option Reading :=
  if r.given.contains (sect, field) then none
  else (r.config.set? b sect field).map fun c =>
    { r with config := c, given := (sect, field) :: r.given }

/-- Starts to give a section that was not given before. -/
def close (r : Reading) (sect : String) : Option Reading :=
  if r.closed.contains sect || r.dotted.contains sect then none
  else some { r with closed := sect :: r.closed }

/-- Gives fields by their names. -/
def giveEntries (sect : String) :
    Reading → List (List String × Toml.Value) → Option Reading
  | r, [] => some r
  | r, ([field], .bool b) :: es => (r.give sect field b).bind (giveEntries sect · es)
  | _, _ :: _ => none

/-- Gives fields in order; items without a field are passed over. -/
def giveItems (sect : String) :
    Reading → List String → List Toml.Value → Option Reading
  | r, [], _ => some r
  | r, _, [] => some r
  | r, f :: fs, .bool b :: vs => (r.give sect f b).bind (giveItems sect · fs vs)
  | _, _ :: _, _ :: _ => none

def entry (r : Reading) (path : List String) (v : Toml.Value) : Option Reading :=
  match r.current, path, v with
  | some s, [field], .bool b => r.give s field b
  | none, [s, field], .bool b =>
    if r.closed.contains s then none else { r with dotted := s :: r.dotted }.give s field b
  | none, [s], .table es =>
    match fields? s with
    | none => none
    | some _ => (r.close s).bind (giveEntries s · es)
  | none, [s], .array vs =>
    match fields? s with
    | none => none
    | some fs => (r.close s).bind (giveItems s · fs vs)
  | _, _, _ => none

def statement (r : Reading) : Toml.Statement → Option Reading
  | .table [s] =>
    match fields? s with
    | none => none
    | some _ => (r.close s).map fun r => { r with current := some s }
  | .table _ => none
  | .tableArray _ => none
  | .entry path v => r.entry path v

def statements : Reading → List Toml.Statement → Option Reading
  | r, [] => some r
  | r, s :: ss => (r.statement s).bind (statements · ss)

end Reading

/-- Reads a configuration. -/
def read (text : String) : Except ConfigError Config :=
  match (Toml.read? text).bind Reading.start.statements with
  | none => .error .parse
  | some r => .ok r.config

/-- Reads a configuration from a file; `file` has the texts of all files that can be read. -/
def load (file : String → Option String) (path : String) : Except ConfigError Config :=
  match file path with
  | none => .error (.unreadable path)
  | some text => read text

end Config
end QueryExpr
