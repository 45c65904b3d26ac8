namespace ArchiveCatalog.Yaml

/-! # Positions in a YAML text

A cursor is what is left of a text with the line and column it stands at. A carriage
return and a line feed together are one break.
-/

/-- What is left of a text and where it starts. -/
structure Cursor where
  rest : List Char
  index : Nat
  line : Nat
  column : Nat
  deriving Repr

/-- A character that ends a line. -/
def isBreak (c : Char) : Bool :=
  c == '\n' || c == '\r' || c == '\x85' || c == '\u2028' || c == '\u2029'

/-- A space or tab. -/
def isBlank (c : Char) : Bool := c == ' ' || c == '\t'

/-- A character that a text may have. -/
def isAllowed (c : Char) : Bool :=
  let n := c.toNat
  n == 9 || n == 10 || n == 13 || (0x20 ≤ n && n ≤ 0x7E) || n == 0x85 ||
    (0xA0 ≤ n && n ≤ 0xFFFD) || 0x10000 ≤ n

/-- The text ends here, or a blank or break comes next. -/
def endsWord : List Char → Bool
  | [] => true
  | c :: _ => isBlank c || isBreak c

/-- The byte order mark. -/
def orderMark : Char := '\uFEFF'

/-- What a line break counts as in a value. -/
def breakChar (c : Char) : Char := if c = '\u2028' ∨ c = '\u2029' then c else '\n'

namespace Cursor

/-- The start of a text; a byte order mark does not count. -/
def start (s : List Char) : Cursor :=
  ⟨if s.head? = some orderMark then s.tail else s, 0, 0, 0⟩

/-- The next character. -/
def peek? (c : Cursor) : Option Char := c.rest.head?

/-- The cursor after the next character or break. -/
def next (c : Cursor) : Cursor :=
  match c.rest with
  | [] => c
  | '\r' :: '\n' :: rest => ⟨rest, c.index + 2, c.line + 1, 0⟩
  | d :: rest =>
    if isBreak d then ⟨rest, c.index + 1, c.line + 1, 0⟩
    else ⟨rest, c.index + 1, c.line, c.column + 1⟩

/-- The cursor after so many characters. -/
def skip (c : Cursor) : Nat → Cursor
  | 0 => c
  | n + 1 => c.next.skip n

/-- The characters up to the first that does not pass, and the cursor there. -/
def takeWhile (c : Cursor) (p : Char → Bool) : List Char × Cursor :=
  let run := c.rest.takeWhile p
  (run, c.skip run.length)

/-- A blank or break comes next, or the text ends. -/
def atWordEnd (c : Cursor) : Bool := endsWord c.rest

/-- A break comes next. -/
def atBreak (c : Cursor) : Bool := (c.peek?.map isBreak).getD false

/-- The given character comes next, and a blank, break or the end after it. -/
def atMark (c : Cursor) (mark : Char) : Bool :=
  match c.rest with
  | d :: rest => d == mark && endsWord rest
  | [] => false

/-- Three of the given character stand at the start of the line, on their own. -/
def atTriple (c : Cursor) (mark : Char) : Bool :=
  c.column == 0 && c.rest.take 3 == List.replicate 3 mark && endsWord (c.rest.drop 3)

/-- A document begins or ends here. -/
def atDocumentMark (c : Cursor) : Bool := c.atTriple '-' || c.atTriple '.'

end Cursor

end ArchiveCatalog.Yaml
