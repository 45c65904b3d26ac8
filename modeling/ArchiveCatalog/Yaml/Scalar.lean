import ArchiveCatalog.Yaml.Cursor

namespace ArchiveCatalog.Yaml

/-! # YAML scalars

A scalar is written plainly, between quotes, or as an indented block. A line break inside
a plain or quoted scalar counts as a space, further breaks as themselves. Reading stops
short of malformed text by answering nothing.
-/

/-- The text of a scalar; only a plain one can stand for a number or for nothing. -/
structure Scalar where
  text : List Char
  plain : Bool
  deriving DecidableEq, Repr

/-! ## Gaps -/

/-- Blanks and breaks inside a scalar: the blanks before the first break, and the
breaks. -/
structure Gap where
  blanks : List Char
  breaks : List Char
  deriving Repr

namespace Gap

/-- No blank and no break. -/
def none : Gap := ⟨[], []⟩

/-- The text has been continued on another line. -/
def isBroken (g : Gap) : Bool := !g.breaks.isEmpty

/-- What a gap stands for. -/
def text (g : Gap) : List Char :=
  match g.breaks with
  | [] => g.blanks
  | b :: more => if b = '\n' then (if more.isEmpty then [' '] else more) else b :: more

end Gap

/-- The gap that comes next; after a break, tabs left of column `indent` are refused. -/
def gap (indent : Nat) : Nat → Gap → Cursor → Option (Gap × Cursor)
  | 0, g, c => some (g, c)
  | fuel + 1, g, c =>
    match c.peek? with
    | none => some (g, c)
    | some d =>
      if isBlank d then
        if g.isBroken then
          if d = '\t' ∧ c.column < indent then none else gap indent fuel g c.next
        else gap indent fuel { g with blanks := g.blanks ++ [d] } c.next
      else if isBreak d then gap indent fuel { g with breaks := g.breaks ++ [breakChar d] } c.next
      else some (g, c)

/-! ## Plain scalars -/

/-- A character that structures a flow collection. -/
def isFlowMark (c : Char) : Bool := c == ',' || c == '[' || c == ']' || c == '\x7b' || c == '\x7d'

/-- The characters up to the end of a word of a plain scalar. -/
def plainWord (inFlow : Bool) : List Char → Option (List Char)
  | [] => some []
  | c :: rest =>
    if isBlank c || isBreak c then some []
    else if inFlow && c == ':' &&
        ((rest.head?.map fun d => isFlowMark d || d == '?').getD false) then none
    else if (c == ':' && endsWord rest) || (inFlow && isFlowMark c) then some []
    else (plainWord inFlow rest).map (c :: ·)

/-- The words of a plain scalar with the gaps between them. Answers the text, whether its
last gap has a break, and the cursor after that gap. -/
def plainWords (inFlow : Bool) (indent : Nat) :
    Nat → List Char → Gap → Cursor → Option (List Char × Bool × Cursor)
  | 0, text, g, c => some (text, g.isBroken, c)
  | fuel + 1, text, g, c => do
    if c.atDocumentMark || c.peek? == some '#' then return (text, g.isBroken, c)
    let word ← plainWord inFlow c.rest
    let after := c.skip word.length
    let (text, pending) := if word.isEmpty then (text, g) else (text ++ g.text ++ word, Gap.none)
    if after.rest.isEmpty || !after.atWordEnd then return (text, pending.isBroken, after)
    let (g, c) ← gap indent c.rest.length pending after
    if !inFlow && c.column < indent then return (text, g.isBroken, c)
    plainWords inFlow indent fuel text g c

/-- A plain scalar, whether its last gap has a break, and the cursor after it. -/
def plainScalar (inFlow : Bool) (indent : Nat) (c : Cursor) : Option (Scalar × Bool × Cursor) := do
  let (text, broken, c) ← plainWords inFlow indent (c.rest.length + 1) [] .none c
  return (⟨text, true⟩, broken, c)

/-! ## Quoted scalars -/

/-- The value of a hexadecimal digit. -/
def hexDigit? (c : Char) : Option Nat :=
  if c.isDigit then some (c.toNat - 48)
  else if 'a' ≤ c ∧ c ≤ 'f' then some (c.toNat - 87)
  else if 'A' ≤ c ∧ c ≤ 'F' then some (c.toNat - 55)
  else none

/-- The character of so many hexadecimal digits. -/
def hexChar? (width : Nat) (s : List Char) : Option Char := do
  let digits := s.take width
  guard (digits.length = width)
  let n ← digits.foldlM (fun n d => (hexDigit? d).map (n * 16 + ·)) 0
  if h : n.isValidChar then some (Char.ofNatAux n h) else none

/-- The characters of one-letter escapes. -/
def letterEscapes : List (Char × Char) :=
  [('0', '\x00'), ('a', '\x07'), ('b', '\x08'), ('t', '\t'), ('\t', '\t'), ('n', '\n'),
    ('v', '\x0b'), ('f', '\x0c'), ('r', '\r'), ('e', '\x1b'), (' ', ' '), ('"', '"'), ('/', '/'),
    ('\\', '\\'), ('N', '\x85'), ('_', '\xa0'), ('L', '\u2028'), ('P', '\u2029')]

/-- The number of hexadecimal digits after a letter. -/
def hexWidth? (c : Char) : Option Nat :=
  if c = 'x' then some 2 else if c = 'u' then some 4 else if c = 'U' then some 8 else none

/-- The character of an escape, told after the backslash, and the length of the escape. -/
def escape? : List Char → Option (Char × Nat)
  | [] => none
  | c :: rest =>
    match hexWidth? c with
    | some width => (hexChar? width rest).map fun d => (d, width + 1)
    | none => (letterEscapes.lookup c).map fun d => (d, 1)

/-- A part of a quoted scalar without blanks and breaks. -/
inductive QuotedPart
  | char (c : Char) (after : Cursor)
  | joined (after : Cursor)
  | stop

/-- The part of a quoted scalar that comes next. A backslash before a break joins the
lines. -/
def quotedPart (quote : Char) (c : Cursor) : Option QuotedPart :=
  match c.rest with
  | [] => some .stop
  | d :: rest =>
    if isBlank d || isBreak d then some .stop
    else if d = quote then
      if quote = '\x27' ∧ rest.head? = some quote then some (.char quote (c.skip 2)) else some .stop
    else if quote = '"' ∧ d = '\\' then
      if c.next.atBreak then some (.joined c.next.next)
      else (escape? rest).map fun (e, length) => .char e (c.skip (length + 1))
    else some (.char d c.next)

/-- The parts of a quoted scalar up to a blank, break, quote or joined line. -/
def quotedParts (quote : Char) : Nat → List Char → Cursor → Option (List Char × Bool × Cursor)
  | 0, _, _ => none
  | fuel + 1, text, c => do
    match ← quotedPart quote c with
    | .char d after => quotedParts quote fuel (text ++ [d]) after
    | .joined after => return (text, true, after)
    | .stop => return (text, false, c)

/-- What a gap in a quoted scalar stands for; after joined lines its breaks are kept. -/
def quotedGap (joined : Bool) (g : Gap) : List Char := if joined then g.breaks else g.text

/-- The gap after joined lines: blanks do not count. -/
def joinedGap (fuel : Nat) (c : Cursor) : Option (Gap × Cursor) := do
  let (_, c) := c.takeWhile isBlank
  let (g, c) ← gap 0 fuel .none c
  return ({ g with blanks := [] }, c)

/-- The rest of a quoted scalar after its opening quote, and the cursor after its closing
quote. -/
def quotedText (quote : Char) : Nat → List Char → Cursor → Option (List Char × Cursor)
  | 0, _, _ => none
  | fuel + 1, text, c => do
    if c.atDocumentMark then none
    else if c.rest.isEmpty then none
    else
      let (text, joined, c) ← quotedParts quote (c.rest.length + 1) text c
      if !joined && c.peek? == some quote then return (text, c.next)
      let (g, c) ← if joined then joinedGap c.rest.length c else gap 0 c.rest.length .none c
      quotedText quote fuel (text ++ quotedGap joined g) c

/-- A quoted scalar and the cursor after it. -/
def quotedScalar (quote : Char) (c : Cursor) : Option (Scalar × Cursor) := do
  let (text, c) ← quotedText quote (c.rest.length + 1) [] c.next
  return (⟨text, false⟩, c)

/-! ## Block scalars -/

/-- What becomes of the breaks at the end of a block. -/
inductive Chomping
  | strip
  | clip
  | keep
  deriving DecidableEq, Repr

/-- The header of a block: its chomping and its further indentation, 0 if it is to be
found out. -/
def blockHeader (c : Cursor) : Option (Chomping × Nat × Cursor) :=
  let chomping (c : Cursor) : Chomping × Cursor :=
    if c.peek? = some '-' then (.strip, c.next)
    else if c.peek? = some '+' then (.keep, c.next)
    else (.clip, c)
  let width (c : Cursor) : Option (Nat × Cursor) :=
    match c.peek? with
    | some d =>
      if d.isDigit then (if d = '0' then none else some (d.toNat - 48, c.next)) else some (0, c)
    | none => some (0, c)
  match chomping c with
  | (.clip, c) => do
    let (n, c) ← width c
    let (mode, c) := chomping c
    return (mode, n, c)
  | (mode, c) => do
    let (n, c) ← width c
    return (mode, n, c)

/-- The cursor at the end of the line, if there is only a comment before it. -/
def restOfLine (c : Cursor) : Option Cursor :=
  let (_, c) := c.takeWhile isBlank
  let c := if c.peek? = some '#' then (c.takeWhile fun d => !isBreak d).2 else c
  if c.rest.isEmpty then some c else if c.atBreak then some c.next else none

/-- Skips the indentation and the empty lines that come next, given the indentation if it
is known. Answers the breaks, the widest indentation seen, and the cursor. -/
def blockBreaks (indent : Nat) :
    Nat → List Char → Nat → Cursor → Option (List Char × Nat × Cursor)
  | 0, breaks, widest, c => some (breaks, widest, c)
  | fuel + 1, breaks, widest, c =>
    match c.peek? with
    | none => some (breaks, max widest c.column, c)
    | some d =>
      let inside := indent = 0 ∨ c.column < indent
      if d = ' ' ∧ inside then blockBreaks indent fuel breaks widest c.next
      else if d = '\t' ∧ inside then none
      else if isBreak d then
        blockBreaks indent fuel (breaks ++ [breakChar d]) (max widest c.column) c.next
      else some (breaks, max widest c.column, c)

/-- The text so far of a block scalar: finished text, the break after the last line, the
breaks of empty lines after it, and whether the last line starts with a blank. -/
structure BlockText where
  text : List Char
  lineBreak : List Char
  emptyLines : List Char
  blankStart : Bool

/-- The text with the breaks before the next line settled: in a folded block a single
break between lines without leading blanks is a space. -/
def BlockText.settled (b : BlockText) (folded nextBlank : Bool) : List Char :=
  if folded && b.lineBreak == ['\n'] && !b.blankStart && !nextBlank then
    b.text ++ (if b.emptyLines.isEmpty then [' '] else b.emptyLines)
  else b.text ++ b.lineBreak ++ b.emptyLines

/-- The lines of a block scalar. -/
def blockLines (folded : Bool) (indent : Nat) :
    Nat → BlockText → Cursor → Option (BlockText × Cursor)
  | 0, b, c => some (b, c)
  | fuel + 1, b, c => do
    if c.column != indent || c.rest.isEmpty then return (b, c)
    let nextBlank := (c.peek?.map isBlank).getD false
    let (line, after) := c.takeWhile fun d => !isBreak d
    let lineBreak := (after.peek?.map fun d => [breakChar d]).getD []
    let start := if lineBreak.isEmpty then after else after.next
    let (emptyLines, _, start) ← blockBreaks indent (start.rest.length + 1) [] 0 start
    blockLines folded indent fuel
      ⟨b.settled folded nextBlank ++ line, lineBreak, emptyLines, nextBlank⟩ start

/-- A block scalar inside a collection indented by `parent`, and the cursor after it. -/
def blockScalar (folded : Bool) (parent : Int) (c : Cursor) : Option (Scalar × Cursor) := do
  let (chomping, width, c) ← blockHeader c.next
  let c ← restOfLine c
  let given := if width = 0 then 0 else (max parent 0).toNat + width
  let (emptyLines, widest, c) ← blockBreaks given (c.rest.length + 1) [] 0 c
  let indent := if given = 0 then max widest (max (parent + 1) 1).toNat else given
  let (b, c) ← blockLines folded indent (c.rest.length + 1) ⟨[], [], emptyLines, false⟩ c
  let tail := match chomping with
    | .strip => []
    | .clip => b.lineBreak
    | .keep => b.lineBreak ++ b.emptyLines
  return (⟨b.text ++ tail, false⟩, c)

end ArchiveCatalog.Yaml
