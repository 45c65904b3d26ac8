import ArchiveCatalog.Dsl.Condition
import ArchiveCatalog.Query
import ArchiveCatalog.Text.Ascii
import ArchiveCatalog.Text.Numeral

namespace ArchiveCatalog.Dsl

/-! # Statements

A statement selects fields from product types where a condition holds, bare or inside
`SQL (arguments) { ... }`. Keywords are whole words outside quotes in any ASCII case.
Positions count characters from the start of the text they are looked for in.
-/

/-! ## Keywords and parentheses -/

/-- What may follow a keyword: the end, a blank or an opening bracket. -/
def endsKeyword : List Char → Bool
  | [] => true
  | c :: _ => Text.isBlank c || c == '(' || c == '\x7b'

/-- The text begins with the keyword. -/
def startsWithKeyword (keyword s : List Char) : Bool :=
  Text.sameFolded (s.take keyword.length) keyword && endsKeyword (s.drop keyword.length)

/-- The position of the first occurrence of a keyword that stands after a blank or at the
start, outside quotes. -/
def findKeyword (keyword : List Char) (quoted boundary : Bool) : List Char → Option Nat
  | [] => none
  | c :: rest =>
    let quoted := if c = Text.quoteMark then !quoted else quoted
    if !quoted && boundary && startsWithKeyword keyword (c :: rest) then some 0
    else (findKeyword keyword quoted (Text.isBlank c) rest).map (· + 1)

/-- The position of the parenthesis that closes the outermost of `depth` open ones; quoted
parentheses do not count. -/
def closingParen (depth : Nat) (quoted : Bool) : List Char → Option Nat
  | [] => none
  | c :: rest =>
    if c = Text.quoteMark then (closingParen depth (!quoted) rest).map (· + 1)
    else if c = '(' ∧ quoted = false then (closingParen (depth + 1) quoted rest).map (· + 1)
    else if c = ')' ∧ quoted = false then
      match depth with
      | 0 => none
      | 1 => some 0
      | depth + 2 => (closingParen (depth + 1) quoted rest).map (· + 1)
    else (closingParen depth quoted rest).map (· + 1)

/-- The characters of a text from one position up to another. -/
def between (start stop : Nat) (s : List Char) : List Char := (s.take stop).drop start

/-! ## Arguments -/

/-- The argument list and the rest of a text that begins with a parenthesis. -/
def splitArguments (s : List Char) : Except QueryFault (List Char × List Char) :=
  match closingParen 0 false s with
  | none => .error .unterminatedArguments
  | some close => .ok (between 1 close s, s.drop (close + 1))

/-- What the braces around a text enclose. -/
def enclosedBody (s : List Char) : Except QueryFault (List Char) :=
  match (Text.dropStart ['\x7b'] s).bind fun s => Text.dropTail ['\x7d'] (Text.trimEnd s) with
  | some body => .ok (Text.trim body)
  | none => .error .unenclosedBody

/-- The argument list and the body of a statement; a bare one has no arguments. -/
def splitStatement (s : List Char) : Except QueryFault (List Char × List Char) := do
  if startsWithKeyword "SQL".toList s then
    let rest := Text.trimStart (s.drop 3)
    let (arguments, rest) ←
      if rest.head? = some '(' then splitArguments rest else pure ([], rest)
    return (arguments, ← enclosedBody (Text.trimStart rest))
  else return ([], s)

/-- The text without the quotes around it, if it has both. -/
def unquoted (s : List Char) : List Char :=
  ((Text.dropStart [Text.quoteMark] s).bind (Text.dropTail [Text.quoteMark])).getD s

/-- The name and value of one argument. -/
def parseArgument (piece : List Char) : Except QueryFault (String × String) :=
  match Text.cutAt '=' piece with
  | none => .error (.malformedArgument (String.ofList piece))
  | some (name, value) =>
    .ok (Text.capitals (Text.trimmed (String.ofList name)),
      String.ofList (unquoted (Text.trim value)))

/-- The names and values of an argument list, in order. -/
def parseArguments (arguments : List Char) : Except QueryFault (List (String × String)) :=
  let pieces := (Text.splitUnquoted ',' false arguments).map Text.trim
  (pieces.filter fun piece => !piece.isEmpty).mapM parseArgument

/-- The overlap of a filter. -/
def parseEpsilon (s : List Char) : Except QueryFault Int :=
  match Text.readInt64? s with
  | some n => .ok n
  | none => .error (.filterEpsilon (String.ofList s))

/-- The filter of an argument's value. -/
def parseFilter (value : String) : Except QueryFault EventFilter := do
  let filter (start stop priority algorithm : List Char) (epsilon : Int) :
      Except QueryFault EventFilter := do
    let algorithm ← FilterAlgorithm.ofName (String.ofList algorithm)
    return ⟨String.ofList start, String.ofList stop, String.ofList priority, algorithm, epsilon⟩
  match (Text.splitOn ',' value.toList).map Text.trim with
  | [start, stop, priority, algorithm] => filter start stop priority algorithm 0
  | [start, stop, priority, algorithm, epsilon] =>
    filter start stop priority algorithm (← parseEpsilon epsilon)
  | _ => .error (.filterShape value)

/-- Sets what an argument gives; a later argument of a name replaces an earlier one. -/
def applyArgument (q : ComplexQuery) (argument : String × String) :
    Except QueryFault ComplexQuery :=
  if argument.1 = "FORMAT" then .ok { q with format := some argument.2 }
  else if argument.1 = "SORT_BY" then .ok { q with sortBy := some argument.2 }
  else if argument.1 = "FILTER" then do return { q with filter := some (← parseFilter argument.2) }
  else .error (.unknownArgument argument.1)

/-! ## Selections -/

/-- The items of a list with commas; a star is no list at all. -/
def parseList (s : List Char) : Option (List String) :=
  let s := Text.trim s
  if s = ['*'] then none
  else
    let items := (Text.splitOn ',' s).map Text.trim
    some ((items.filter fun item => !item.isEmpty).map String.ofList)

/-- Where the parts of a selection end: the position of FROM, and of a WHERE after it. -/
def selectionParts (body : List Char) : Except QueryFault (Nat × Option Nat) :=
  if startsWithKeyword "SELECT".toList body then
    match findKeyword "FROM".toList false true body with
    | none => .error (.missingFrom (String.ofList body))
    | some fromAt =>
      .ok (fromAt, (findKeyword "WHERE".toList false true body).filter (fromAt < ·))
  else .error (.missingSelect (String.ofList body))

/-- The query of a selection. -/
def parseSelection (body : List Char) : Except QueryFault ComplexQuery := do
  let (fromAt, whereAt) ← selectionParts body
  let fields := between "SELECT".length fromAt body
  let afterFrom := fromAt + "FROM".length
  let (types, query) ←
    match whereAt with
    | none => pure (body.drop afterFrom, Query.everything)
    | some whereAt =>
      let condition ← parseCondition (body.drop (whereAt + "WHERE".length))
      pure (between afterFrom whereAt body, ⟨[condition]⟩)
  return { query, fields := parseList fields, types := parseList types,
           sortBy := none, format := none, filter := none }

/-- The query of a statement. -/
def parseStatement (text : String) : Except QueryFault ComplexQuery := do
  let (arguments, body) ← splitStatement (Text.trim text.toList)
  let selection ← parseSelection body
  (← parseArguments arguments).foldlM applyArgument selection

end ArchiveCatalog.Dsl
