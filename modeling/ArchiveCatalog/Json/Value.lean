import ArchiveCatalog.Json.Spelling

namespace ArchiveCatalog.Json

/-! # JSON values

A value keeps its numbers and texts as they are spelled: whether a spelling stands for a
number in range, or for text at all, matters only where it is read. `render` writes values
without blanks, and `parse?` reads them, with blanks allowed between their parts.
-/

/-- A JSON value. -/
inductive Value
  | null
  | boolean (b : Bool)
  | number (spelling : List Char)
  | text (spelling : List Char)
  | list (items : List Value)
  | object (fields : List (List Char × Value))
  deriving Repr, Inhabited

namespace Value

/-! ## Writing -/

/-- A spelling in quotes. -/
def quoted (spelling : List Char) : List Char := quote :: spelling ++ [quote]

/-- Joins texts with commas. -/
def withCommas : List (List Char) → List Char
  | [] => []
  | [s] => s
  | s :: rest => s ++ ',' :: withCommas rest

mutual

/-- A value without blanks. -/
def render : Value → List Char
  | .null => "null".toList
  | .boolean true => "true".toList
  | .boolean false => "false".toList
  | .number spelling => spelling
  | .text spelling => quoted spelling
  | .list items => '[' :: withCommas (renderItems items) ++ [']']
  | .object fields => '\x7b' :: withCommas (renderFields fields) ++ ['\x7d']

/-- The items of a list. -/
def renderItems : List Value → List (List Char)
  | [] => []
  | v :: rest => render v :: renderItems rest

/-- The fields of an object. -/
def renderFields : List (List Char × Value) → List (List Char)
  | [] => []
  | (key, v) :: rest => (quoted key ++ ':' :: render v) :: renderFields rest

end

/-! ## Reading -/

/-- A blank between the parts of a value. -/
def isBlank (c : Char) : Bool := c == ' ' || c == '\n' || c == '\t' || c == '\r'

/-- The text without leading blanks. -/
def skip (s : List Char) : List Char := s.dropWhile isBlank

/-- What follows a word. -/
def word? (word : String) (s : List Char) : Option (List Char) :=
  if word.toList.isPrefixOf s then some (s.drop word.length) else none

/-- One digit at least, as many as there are, and what follows. -/
def digits? (s : List Char) : Option (List Char × List Char) :=
  let run := s.takeWhile Char.isDigit
  if run.isEmpty then none else some (run, s.drop run.length)

/-- The whole part of a number, which has no needless zero in front. -/
def wholePart? (s : List Char) : Option (List Char × List Char) :=
  match s with
  | '0' :: rest =>
    match rest with
    | c :: _ => if c.isDigit then none else some (['0'], rest)
    | [] => some (['0'], rest)
  | s => digits? s

/-- A point and digits, or nothing. -/
def fraction? : List Char → Option (List Char × List Char)
  | '.' :: rest => (digits? rest).map fun (run, rest) => ('.' :: run, rest)
  | s => some ([], s)

/-- A sign, or nothing. -/
def sign : List Char → List Char × List Char
  | '+' :: rest => (['+'], rest)
  | '-' :: rest => (['-'], rest)
  | s => ([], s)

/-- An exponent, or nothing. -/
def exponent? : List Char → Option (List Char × List Char)
  | [] => some ([], [])
  | c :: rest =>
    if c = 'e' ∨ c = 'E' then
      let (mark, rest) := sign rest
      (digits? rest).map fun (run, rest) => (c :: mark ++ run, rest)
    else some ([], c :: rest)

/-- A number as spelled, and what follows. -/
def number? (s : List Char) : Option (List Char × List Char) := do
  let (minus, s) := match s with
    | '-' :: rest => (['-'], rest)
    | s => ([], s)
  let (whole, s) ← wholePart? s
  let (fraction, s) ← fraction? s
  let (exponent, s) ← exponent? s
  return (minus ++ whole ++ fraction ++ exponent, s)

/-- The spelling of text up to its closing quote, and what follows the quote. -/
def spelling? (s : List Char) : Option (List Char × List Char) :=
  if s.head? = some quote then some ([], s.tail)
  else
    match _h : nextPiece? s with
    | none => none
    | some (_, spelling, after) =>
      (spelling? after).map fun (following, rest) => (spelling ++ following, rest)
termination_by s.length
decreasing_by exact length_nextPiece? _h

/-- The key of a field and what follows the colon after it. -/
def key? : List Char → Option (List Char × List Char)
  | [] => none
  | c :: s =>
    if c = quote then do
      let (key, s) ← spelling? s
      let s ← word? ":" (skip s)
      return (key, s)
    else none

mutual

/-- A value and what follows it, read in `depth` steps at most. -/
def value? (depth : Nat) (s : List Char) : Option (Value × List Char) :=
  match depth with
  | 0 => none
  | depth + 1 =>
    match skip s with
    | [] => none
    | c :: rest =>
      if c = 'n' then (word? "ull" rest).map fun rest => (.null, rest)
      else if c = 't' then (word? "rue" rest).map fun rest => (.boolean true, rest)
      else if c = 'f' then (word? "alse" rest).map fun rest => (.boolean false, rest)
      else if c = quote then
        (spelling? rest).map fun (spelling, rest) => (.text spelling, rest)
      else if c = '[' then
        match word? "]" (skip rest) with
        | some rest => some (.list [], rest)
        | none => (items? depth rest).map fun (items, rest) => (.list items, rest)
      else if c = '\x7b' then
        match word? "\x7d" (skip rest) with
        | some rest => some (.object [], rest)
        | none => (fields? depth rest).map fun (fields, rest) => (.object fields, rest)
      else (number? (c :: rest)).map fun (spelling, rest) => (.number spelling, rest)

/-- The items of a list up to its closing bracket, one at least. -/
def items? (depth : Nat) (s : List Char) : Option (List Value × List Char) :=
  match depth with
  | 0 => none
  | depth + 1 => do
    let (v, s) ← value? depth s
    match skip s with
    | ']' :: rest => return ([v], rest)
    | ',' :: rest =>
      let (vs, rest) ← items? depth rest
      return (v :: vs, rest)
    | _ => none

/-- The fields of an object up to its closing brace, one at least. -/
def fields? (depth : Nat) (s : List Char) : Option (List (List Char × Value) × List Char) :=
  match depth with
  | 0 => none
  | depth + 1 => do
    let (key, s) ← key? (skip s)
    let (v, s) ← value? depth s
    match skip s with
    | '\x7d' :: rest => return ([(key, v)], rest)
    | ',' :: rest =>
      let (fields, rest) ← fields? depth rest
      return ((key, v) :: fields, rest)
    | _ => none

end

/-- The value of a text, all of it but blanks. Every second step takes a character, so the
length of the text bounds the steps. -/
def parse? (s : List Char) : Option Value := do
  let (v, rest) ← value? (2 * s.length + 1) s
  guard (skip rest).isEmpty
  return v

end Value

end ArchiveCatalog.Json
