import ArchiveCatalog.Yaml.Scalar

namespace ArchiveCatalog.Yaml

/-! # YAML tokens

Tokens make the structure explicit that indentation implies: where a block collection
begins and ends and which scalar is a key. A key in a block is only known as such when its
colon comes, so every place where a key may stand is remembered until then and the tokens
for it are put in there. Directives, anchors, aliases and tags are refused.
-/

/-- A token. -/
inductive Token
  | documentStart
  | documentEnd
  | blockSequence
  | blockMapping
  | blockEnd
  | flowSequence
  | flowSequenceEnd
  | flowMapping
  | flowMappingEnd
  | blockEntry
  | flowEntry
  | key
  | value
  | scalar (s : Scalar)
  deriving DecidableEq, Repr

/-- A place where a key may have begun: the number of tokens before it and its position.
One that starts a line of a block mapping has to turn out to be a key. -/
structure KeyPlace where
  tokens : Nat
  index : Nat
  line : Nat
  column : Nat
  required : Bool
  deriving Repr

/-- The state of the reading of tokens. `places` has an entry for every open flow
collection and one for the block around them, the innermost first. -/
structure Lexer where
  cursor : Cursor
  tokens : List Token
  indent : Int
  indents : List Int
  places : List (Option KeyPlace)
  keyAllowed : Bool

namespace Lexer

/-- The start of a text. -/
def start (s : List Char) : Lexer := ⟨.start s, [], -1, [], [none], true⟩

/-- Inside a flow collection. -/
def inFlow (l : Lexer) : Bool := 1 < l.places.length

/-- Appends a token. -/
def push (l : Lexer) (t : Token) : Lexer := { l with tokens := l.tokens ++ [t] }

/-- Appends a token and goes on after so many characters. -/
def pushOver (l : Lexer) (t : Token) (length : Nat) : Lexer :=
  { l.push t with cursor := l.cursor.skip length }

/-! ## Blanks -/

/-- Skips blanks, comments and breaks before a token. -/
def skipBlanks : Nat → Lexer → Lexer
  | 0, l => l
  | fuel + 1, l =>
    match l.cursor.peek? with
    | none => l
    | some c =>
      if c = ' ' ∨ (c = '\t' ∧ (l.inFlow ∨ !l.keyAllowed)) ∨ (c = orderMark ∧ l.cursor.index = 0)
      then skipBlanks fuel { l with cursor := l.cursor.next }
      else if c = '#' then
        skipBlanks fuel { l with cursor := (l.cursor.takeWhile fun d => !isBreak d).2 }
      else if isBreak c then
        skipBlanks fuel
          { l with cursor := l.cursor.next, keyAllowed := l.keyAllowed || !l.inFlow }
      else l

/-! ## Places for keys -/

/-- The greatest length of a key without a question mark. -/
def longestKey : Nat := 1024

/-- The place can no longer be that of a key. -/
def isStale (c : Cursor) (p : KeyPlace) : Bool := p.line < c.line || p.index + longestKey < c.index

/-- Forgets places that are too far back. -/
def forgetStale (l : Lexer) : Option Lexer := do
  let places ← l.places.mapM fun place =>
    match place with
    | none => some none
    | some p =>
      if isStale l.cursor p then (if p.required then none else some none) else some (some p)
  return { l with places }

/-- Forgets the current place. -/
def forgetPlace (l : Lexer) : Option Lexer :=
  match l.places with
  | some p :: rest => if p.required then none else some { l with places := none :: rest }
  | _ => some l

/-- Remembers that a key may begin here. -/
def markPlace (l : Lexer) : Option Lexer :=
  if l.keyAllowed then do
    let l ← l.forgetPlace
    let place : KeyPlace :=
      { tokens := l.tokens.length, index := l.cursor.index, line := l.cursor.line
        column := l.cursor.column, required := !l.inFlow && l.indent == l.cursor.column }
    return { l with places := some place :: l.places.tail }
  else some l

/-! ## Indentation -/

/-- Ends the block collections that are indented further than a column. -/
def unroll (column : Int) : List Int → Lexer → Lexer
  | [], l => l
  | outer :: rest, l =>
    if column < l.indent then unroll column rest { l.push .blockEnd with indent := outer, indents := rest }
    else l

/-- Ends the block collections that the position of the next token ends. -/
def unrollTo (l : Lexer) (column : Int) : Lexer :=
  if l.inFlow then l else unroll column l.indents l

/-- Begins a block collection, unless the column belongs to the current one. Its token is
put after the first `position` tokens. -/
def roll (l : Lexer) (column position : Nat) (t : Token) : Lexer :=
  if !l.inFlow && l.indent < column then
    { l with indent := column, indents := l.indent :: l.indents
             tokens := l.tokens.take position ++ t :: l.tokens.drop position }
  else l

/-- Begins a block collection here. -/
def rollHere (l : Lexer) (t : Token) : Lexer := l.roll l.cursor.column l.tokens.length t

/-! ## Tokens -/

/-- The mark of a document. -/
def documentMark (l : Lexer) (t : Token) : Option Lexer := do
  let l ← (l.unrollTo (-1)).forgetPlace
  return { l.pushOver t 3 with keyAllowed := false }

/-- The opening bracket of a flow collection. -/
def openFlow (l : Lexer) (t : Token) : Option Lexer := do
  let l ← l.markPlace
  return { l.pushOver t 1 with places := none :: l.places, keyAllowed := true }

/-- The closing bracket of a flow collection. -/
def closeFlow (l : Lexer) (t : Token) : Option Lexer := do
  let l ← l.forgetPlace
  let places := if l.inFlow then l.places.tail else l.places
  return { l.pushOver t 1 with places, keyAllowed := false }

/-- The comma of a flow collection. -/
def comma (l : Lexer) : Option Lexer := do
  let l ← l.forgetPlace
  return { l.pushOver .flowEntry 1 with keyAllowed := true }

/-- The hyphen of an entry. -/
def hyphen (l : Lexer) : Option Lexer := do
  let l ← if l.inFlow then some l else if l.keyAllowed then some (l.rollHere .blockSequence) else none
  let l ← l.forgetPlace
  return { l.pushOver .blockEntry 1 with keyAllowed := true }

/-- The question mark of a key. -/
def question (l : Lexer) : Option Lexer := do
  let l ← if l.inFlow then some l else if l.keyAllowed then some (l.rollHere .blockMapping) else none
  let l ← l.forgetPlace
  return { l.pushOver .key 1 with keyAllowed := !l.inFlow }

/-- The colon of a value: what stands at the remembered place is its key. -/
def colon (l : Lexer) : Option Lexer :=
  match l.places with
  | some p :: rest =>
    let l := { l with tokens := l.tokens.take p.tokens ++ Token.key :: l.tokens.drop p.tokens
                      places := none :: rest }
    some { (l.roll p.column p.tokens .blockMapping).pushOver .value 1 with keyAllowed := false }
  | _ =>
    if l.inFlow then some { l.pushOver .value 1 with keyAllowed := false }
    else if l.keyAllowed then
      some { (l.rollHere .blockMapping).pushOver .value 1 with keyAllowed := true }
    else none

/-- A scalar between quotes. -/
def quoted (l : Lexer) (quote : Char) : Option Lexer := do
  let l ← l.markPlace
  let (s, cursor) ← quotedScalar quote l.cursor
  return { l.push (.scalar s) with cursor, keyAllowed := false }

/-- A block scalar. -/
def block (l : Lexer) (folded : Bool) : Option Lexer := do
  let l ← l.forgetPlace
  let (s, cursor) ← blockScalar folded l.indent l.cursor
  return { l.push (.scalar s) with cursor, keyAllowed := true }

/-- A plain scalar. -/
def plain (l : Lexer) : Option Lexer := do
  let l ← l.markPlace
  let (s, broken, cursor) ← plainScalar l.inFlow (l.indent + 1).toNat l.cursor
  return { l.push (.scalar s) with cursor, keyAllowed := broken }

/-- Characters that no plain scalar begins with, or only before some others. -/
def indicators : List Char := "-?:,[]\x7b\x7d#&*!|>\x27\"%@`".toList

/-- A plain scalar begins here. -/
def startsPlain (inFlow : Bool) : List Char → Bool
  | [] => false
  | c :: rest =>
    !(isBlank c || isBreak c || indicators.contains c) ||
      (c == '-' && !((rest.head?.map isBlank).getD false)) ||
      (!inFlow && (c == '?' || c == ':') && !endsWord rest)

/-- Reads one token, given that no blank comes next and a character does. -/
def token (l : Lexer) (c : Char) : Option Lexer :=
  let mark (d : Char) : Bool := c == d && (l.inFlow || l.cursor.atMark d)
  if l.cursor.atTriple '-' then l.documentMark .documentStart
  else if l.cursor.atTriple '.' then l.documentMark .documentEnd
  else if l.cursor.column = 0 ∧ c = '%' then none
  else if c = '[' then l.openFlow .flowSequence
  else if c = '\x7b' then l.openFlow .flowMapping
  else if c = ']' then l.closeFlow .flowSequenceEnd
  else if c = '\x7d' then l.closeFlow .flowMappingEnd
  else if c = ',' then l.comma
  else if l.cursor.atMark '-' then l.hyphen
  else if mark '?' then l.question
  else if mark ':' then l.colon
  else if c = '|' ∧ !l.inFlow then l.block false
  else if c = '>' ∧ !l.inFlow then l.block true
  else if c = '\x27' ∨ c = '"' then l.quoted c
  else if startsPlain l.inFlow l.cursor.rest then l.plain
  else none

/-- Reads the tokens that are left. -/
def run : Nat → Lexer → Option (List Token)
  | 0, _ => none
  | fuel + 1, l => do
    let l ← (l.skipBlanks (l.cursor.rest.length + 1)).forgetStale
    match l.cursor.peek? with
    | none => return (← (l.unrollTo (-1)).forgetPlace).tokens
    | some c => run fuel (← (l.unrollTo l.cursor.column).token c)

end Lexer

/-- The tokens of a text. -/
def tokens? (s : List Char) : Option (List Token) :=
  if s.all isAllowed then (Lexer.start s).run (s.length + 1) else none

end ArchiveCatalog.Yaml
