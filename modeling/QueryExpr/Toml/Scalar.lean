/-!
# QueryExpr.Toml.Scalar

The parts of a TOML document that do not nest: white space, strings, numbers, and points in time.

Readers take the characters that are left and return what is left after them. Numbers and points
in time are only recognised, since no configuration holds one.
-/

namespace QueryExpr.Toml

/-! ## White space and comments -/

def isSpace (c : Char) : Bool := c == ' ' || c == '\t'

def skipSpaces (cs : List Char) : List Char := cs.dropWhile isSpace

/-- Characters of strings and comments: all but control characters; a tab is allowed. -/
def isText (c : Char) : Bool := c == '\t' || (' ' ≤ c && c != '\x7f')

def skipComment : List Char → List Char
  | '#' :: cs => cs.dropWhile isText
  | cs => cs

/-- What follows the line, if only white space and a comment are left on it. -/
def lineEnd? (cs : List Char) : Option (List Char) :=
  match skipComment (skipSpaces cs) with
  | [] => some []
  | '\n' :: r => some r
  | '\r' :: '\n' :: r => some r
  | _ => none

/-- Skips white space, line ends and comments. -/
def skipBlank (inComment : Bool) : List Char → List Char
  | '\n' :: cs => skipBlank false cs
  | '\r' :: '\n' :: cs => skipBlank false cs
  | c :: cs =>
    if inComment then (if isText c then skipBlank true cs else c :: cs)
    else if isSpace c then skipBlank false cs
    else if c == '#' then skipBlank true cs
    else c :: cs
  | [] => []

/-! ## Digits -/

def isDigit (c : Char) : Bool := '0' ≤ c && c ≤ '9'

def digit (c : Char) : Nat := c.toNat - '0'.toNat

/-- The value of a digit to the base sixteen. -/
def hexDigit? (c : Char) : Option Nat :=
  if isDigit c then some (digit c)
  else if 'a' ≤ c && c ≤ 'f' then some (c.toNat - 'a'.toNat + 10)
  else if 'A' ≤ c && c ≤ 'F' then some (c.toNat - 'A'.toNat + 10)
  else none

/-! ## Strings -/

/-- Where a reader stands in a string. -/
inductive StringState where
  | text
  | escape
  /-- So many digits of an escape are to come; the value of those before. -/
  | code (left value : Nat)
  /-- Between a backslash and the end of its line. -/
  | fold
  /-- Behind a carriage return that stands there. -/
  | foldReturn

/-- The character that an escape of one letter stands for. -/
def letterEscape? : Char → Option Char
  | 'b' => some '\x08'
  | 't' => some '\t'
  | 'n' => some '\n'
  | 'f' => some '\x0c'
  | 'r' => some '\r'
  | 'e' => some '\x1b'
  | '"' => some '"'
  | '\\' => some '\\'
  | _ => none

/-- The number of digits after a letter that starts an escape by code. -/
def codeLength? : Char → Option Nat
  | 'x' => some 2
  | 'u' => some 4
  | 'U' => some 8
  | _ => none

/-- Reads a string with escapes up to its closing quotes; `read` is what was read, last character
first. A long string ends in three quotes, before which up to two more may stand. -/
def quoted? (long : Bool) : StringState → List Char → List Char → Option (List Char × List Char)
  | .text, read, '"' :: '"' :: '"' :: '"' :: '"' :: cs =>
    if long then some (('"' :: '"' :: read).reverse, cs)
    else some (read.reverse, '"' :: '"' :: '"' :: '"' :: cs)
  | .text, read, '"' :: '"' :: '"' :: '"' :: cs =>
    if long then some (('"' :: read).reverse, cs)
    else some (read.reverse, '"' :: '"' :: '"' :: cs)
  | .text, read, '"' :: '"' :: '"' :: cs =>
    if long then some (read.reverse, cs) else some (read.reverse, '"' :: '"' :: cs)
  | .text, read, '"' :: cs =>
    if long then quoted? long .text ('"' :: read) cs else some (read.reverse, cs)
  | .text, read, '\\' :: cs => quoted? long .escape read cs
  | .text, read, '\r' :: '\n' :: cs =>
    if long then quoted? long .text ('\n' :: read) cs else none
  | .text, read, c :: cs =>
    if isText c || (long && c == '\n') then quoted? long .text (c :: read) cs else none
  | .escape, read, c :: cs =>
    match letterEscape? c, codeLength? c with
    | some d, _ => quoted? long .text (d :: read) cs
    | none, some n => quoted? long (.code n 0) read cs
    | none, none =>
      if long && c == '\n' then quoted? long .text read cs
      else if long && c == '\r' then quoted? long .foldReturn read cs
      else if long && isSpace c then quoted? long .fold read cs
      else none
  | .code left value, read, c :: cs =>
    match hexDigit? c with
    | none => none
    | some d =>
      let v := 16 * value + d
      if left ≤ 1 then
        if v.isValidChar then quoted? long .text (Char.ofNat v :: read) cs else none
      else quoted? long (.code (left - 1) v) read cs
  | .fold, read, c :: cs =>
    if c == '\n' then quoted? long .text read cs
    else if c == '\r' then quoted? long .foldReturn read cs
    else if isSpace c then quoted? long .fold read cs
    else none
  | .foldReturn, read, c :: cs => if c == '\n' then quoted? long .text read cs else none
  | _, _, [] => none

/-- Reads a string without escapes up to its closing quotes. -/
def literal? (long : Bool) : List Char → List Char → Option (List Char × List Char)
  | read, '\'' :: '\'' :: '\'' :: '\'' :: '\'' :: cs =>
    if long then some (('\'' :: '\'' :: read).reverse, cs)
    else some (read.reverse, '\'' :: '\'' :: '\'' :: '\'' :: cs)
  | read, '\'' :: '\'' :: '\'' :: '\'' :: cs =>
    if long then some (('\'' :: read).reverse, cs)
    else some (read.reverse, '\'' :: '\'' :: '\'' :: cs)
  | read, '\'' :: '\'' :: '\'' :: cs =>
    if long then some (read.reverse, cs) else some (read.reverse, '\'' :: '\'' :: cs)
  | read, '\'' :: cs =>
    if long then literal? long ('\'' :: read) cs else some (read.reverse, cs)
  | read, '\r' :: '\n' :: cs => if long then literal? long ('\n' :: read) cs else none
  | read, c :: cs =>
    if isText c || (long && c == '\n') then literal? long (c :: read) cs else none
  | _, [] => none

/-! ## Numbers

Numbers are looked at without their sign. -/

def isHexDigit (c : Char) : Bool := (hexDigit? c).isSome

def isOctalDigit (c : Char) : Bool := '0' ≤ c && c ≤ '7'

def isBinaryDigit (c : Char) : Bool := c == '0' || c == '1'

/-- Whether digits stand on both sides of each underscore; `before` says whether a digit stands in
front of the text. -/
def underscoresFit (p : Char → Bool) (before : Bool) : List Char → Bool
  | [] => true
  | ['_'] => false
  | '_' :: c :: cs => before && p c && underscoresFit p true cs
  | c :: cs => underscoresFit p (p c) cs

/-- What stands behind the mark of a base: digits, which may be missing. -/
def isBased (p : Char → Bool) (cs : List Char) : Bool :=
  cs.all (fun c => p c || c == '_') && underscoresFit p false cs

/-- An integer; `signed` says whether it has a sign, which only the base ten allows. To that base,
from the first underscore on, only the neighbours of underscores have to be digits, of any base;
but a space belongs to a date, and a point or an `e` to a float. -/
def isInteger (signed : Bool) : List Char → Bool
  | '0' :: 'x' :: cs => !signed && isBased isHexDigit cs
  | '0' :: 'o' :: cs => !signed && isBased isOctalDigit cs
  | '0' :: 'b' :: cs => !signed && isBased isBinaryDigit cs
  | ['0'] => true
  | '0' :: _ => false
  | [] => false
  | cs =>
    match cs.dropWhile isDigit with
    | [] => true
    | '_' :: r => !r.any [' ', '.', 'e', 'E'].contains && underscoresFit isHexDigit false cs
    | _ => false

/-- What follows digits and underscores, among which is a digit. If there are more digits, a zero
may come first only if `zero` says so. -/
def afterDigits? (zero : Bool) (cs : List Char) : Option (List Char) :=
  let ds := cs.takeWhile fun c => isDigit c || c == '_'
  let n := ds.countP isDigit
  if n == 0 || (1 < n && !zero && ds.head? == some '0') then none
  else some (cs.drop ds.length)

def dropSign : List Char → List Char
  | '+' :: cs => cs
  | '-' :: cs => cs
  | cs => cs

/-- An exponent, up to the end. -/
def isExponent : List Char → Bool
  | 'e' :: cs => afterDigits? true (dropSign cs) == some []
  | 'E' :: cs => afterDigits? true (dropSign cs) == some []
  | _ => false

/-- A number with a fraction, an exponent or both. -/
def isDecimal (cs : List Char) : Bool :=
  match afterDigits? false cs with
  | some ('.' :: r) =>
    match afterDigits? true r with
    | some r => r.isEmpty || isExponent r
    | none => false
  | some r => isExponent r
  | none => false

def isFloat (cs : List Char) : Bool :=
  cs == ['i', 'n', 'f'] || cs == ['n', 'a', 'n'] ||
    (isDecimal cs && underscoresFit isDigit false cs)

def isNumber : List Char → Bool
  | '+' :: cs => isInteger true cs || isFloat cs
  | '-' :: cs => isInteger true cs || isFloat cs
  | cs => isInteger false cs || isFloat cs

/-! ## Points in time -/

def number (cs : List Char) : Nat := cs.foldl (fun n c => 10 * n + digit c) 0

/-- The number in the first `n` characters, if they are digits. -/
def fixed? (n : Nat) (cs : List Char) : Option (Nat × List Char) :=
  let ds := cs.take n
  if ds.length == n && ds.all isDigit then some (number ds, cs.drop n) else none

def daysIn (year month : Nat) : Nat :=
  if month == 2 then
    if year % 4 == 0 && (year % 100 != 0 || year % 400 == 0) then 29 else 28
  else if [4, 6, 9, 11].contains month then 30
  else 31

/-- What follows a date. -/
def afterDate? (cs : List Char) : Option (List Char) :=
  match fixed? 4 cs with
  | some (year, '-' :: r) =>
    match fixed? 2 r with
    | some (month, '-' :: r) =>
      match fixed? 2 r with
      | some (day, r) =>
        if 1 ≤ month && month ≤ 12 && 1 ≤ day && day ≤ daysIn year month then some r else none
      | none => none
    | _ => none
  | _ => none

/-- What follows hours and minutes. -/
def afterMinutes? (cs : List Char) : Option (List Char) :=
  match fixed? 2 cs with
  | some (hour, ':' :: r) =>
    match fixed? 2 r with
    | some (minute, r) => if hour ≤ 23 && minute ≤ 59 then some r else none
    | none => none
  | _ => none

/-- What follows a time of day; seconds may be left out. -/
def afterTime? (cs : List Char) : Option (List Char) :=
  match afterMinutes? cs with
  | some (':' :: r) =>
    match fixed? 2 r with
    | some (second, r) =>
      if 60 < second then none
      else
        match r with
        | '.' :: c :: r => if isDigit c then some (r.dropWhile isDigit) else none
        | r => some r
    | none => none
  | r => r

/-- An offset from universal time, up to the end. -/
def isOffset : List Char → Bool
  | ['Z'] => true
  | ['z'] => true
  | '+' :: cs => afterMinutes? cs == some []
  | '-' :: cs => afterMinutes? cs == some []
  | _ => false

def isDate (cs : List Char) : Bool := afterDate? cs == some []

def isTime (cs : List Char) : Bool := afterTime? cs == some []

/-- A date and a time of day, with or without an offset. -/
def isDateTime (cs : List Char) : Bool :=
  match afterDate? cs with
  | some (c :: r) =>
    (c == 'T' || c == 't' || c == ' ') &&
      match afterTime? r with
      | some r => r.isEmpty || isOffset r
      | none => false
  | _ => false

/-- A number or a point in time. -/
def isScalar (cs : List Char) : Bool :=
  isNumber cs || isDate cs || isTime cs || isDateTime cs

/-! ## Words -/

/-- Characters that are no part of a word. -/
def isDelimiter (c : Char) : Bool :=
  isSpace c || ['=', ',', '[', ']', '\x7b', '\x7d', '#', '\n', '\r'].contains c

/-- Whether white space in front of these characters joins them to the word before it. -/
def joins : List Char → Bool
  | [] => false
  | c :: _ => !(isDelimiter c || ['.', '"', '\''].contains c)

/-- The words in front, as one text with the white space between them, and what follows them. A
date and a time are such words. -/
def words : List Char → List Char × List Char
  | [] => ([], [])
  | c :: cs =>
    if !isDelimiter c || (isSpace c && joins (skipSpaces cs)) then
      (c :: (words cs).1, (words cs).2)
    else ([], c :: cs)

end QueryExpr.Toml
