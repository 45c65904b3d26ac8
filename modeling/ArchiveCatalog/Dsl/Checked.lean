import ArchiveCatalog.Dsl.Statement
import ArchiveCatalog.Text.Offset

namespace ArchiveCatalog.Dsl

/-! # Statements by offsets

Here a statement is read by offsets: scans find them, and the text is cut where they say. Every cut
checks its range, every item of a list is looked up, and a depth that goes below zero is noticed,
so that reading comes to a third end besides a query and a fault. What is read is the same as
without offsets, and the third end is never reached.
-/

/-- How reading comes to an end without a query. -/
inductive Halt
  | fault (f : QueryFault)
  /-- A cut, an item or a count is out of range. -/
  | outOfRange
  deriving DecidableEq, Repr

namespace Checked

/-- What cannot be out of range. -/
def lift {α : Type} : Except QueryFault α → Except Halt α := Except.mapError Halt.fault

/-- What there must be. -/
def inRange {α : Type} : Option α → Except Halt α
  | some a => .ok a
  | none => .error .outOfRange

/-- The text between two offsets. -/
def cut (start stop : Nat) (s : List Char) : Except Halt (List Char) :=
  inRange (Text.slice? start stop s)

/-- The text behind an offset. -/
def cutFrom (start : Nat) (s : List Char) : Except Halt (List Char) :=
  inRange (Text.sliceFrom? start s)

/-! ## Keywords and parentheses -/

/-- The text begins with the keyword. -/
def startsWithKeyword (keyword s : List Char) : Except Halt Bool :=
  let size := Text.byteCount keyword
  if size ≤ Text.byteCount s ∧ Text.isBoundary s size then do
    if Text.sameFolded (← cut 0 size s) keyword then return endsKeyword (← cutFrom size s)
    else return false
  else return false

/-- The offset of a keyword, among the characters of a text that are left. -/
def findFrom (keyword s : List Char) (quoted boundary : Bool) :
    List (Nat × Char) → Except Halt (Option Nat)
  | [] => return none
  | (offset, c) :: rest => do
    let quoted := if c = Text.quoteMark then !quoted else quoted
    let here ←
      if !quoted && boundary then startsWithKeyword keyword (← cutFrom offset s) else pure false
    if here then return some offset
    else findFrom keyword s quoted (Text.isBlank c) rest

/-- The offset of the first keyword that is a word of its own outside quotes. -/
def findKeyword (keyword s : List Char) : Except Halt (Option Nat) :=
  findFrom keyword s false true (Text.withOffsets 0 s)

/-- The offset of the parenthesis that closes the outermost of `depth` open ones. -/
def closingFrom (depth : Nat) (quoted : Bool) : List (Nat × Char) → Except Halt (Option Nat)
  | [] => return none
  | (offset, c) :: rest =>
    if c = Text.quoteMark then closingFrom depth (!quoted) rest
    else if c = '(' ∧ quoted = false then closingFrom (depth + 1) quoted rest
    else if c = ')' ∧ quoted = false then
      match depth with
      | 0 => .error .outOfRange
      | 1 => return some offset
      | depth + 2 => closingFrom (depth + 1) quoted rest
    else closingFrom depth quoted rest

/-- The offset of the parenthesis that closes the one at the start. -/
def closingParen (s : List Char) : Except Halt (Option Nat) :=
  closingFrom 0 false (Text.withOffsets 0 s)

/-! ## Arguments -/

/-- The argument list and the rest of a text that begins with a parenthesis. -/
def splitArguments (s : List Char) : Except Halt (List Char × List Char) := do
  match ← closingParen s with
  | none => .error (.fault .unterminatedArguments)
  | some close => return (← cut 1 close s, ← cutFrom (close + 1) s)

/-- The argument list and the body of a statement. -/
def splitStatement (s : List Char) : Except Halt (List Char × List Char) := do
  if ← startsWithKeyword "SQL".toList s then
    let rest := Text.trimStart (← cutFrom 3 s)
    let (arguments, rest) ←
      if rest.head? = some '(' then splitArguments rest else pure ([], rest)
    return (arguments, ← lift (enclosedBody (Text.trimStart rest)))
  else return ([], s)

/-- The pieces between the separators outside quotes, the first from `start` on, among the
characters that are left. -/
def piecesFrom (sep : Char) (s : List Char) (start : Nat) (quoted : Bool) :
    List (Nat × Char) → Except Halt (List (List Char))
  | [] => return [← cutFrom start s]
  | (offset, c) :: rest =>
    if c = Text.quoteMark then piecesFrom sep s start (!quoted) rest
    else if c = sep ∧ quoted = false then do
      let piece ← cut start offset s
      return piece :: (← piecesFrom sep s (offset + c.utf8Size) quoted rest)
    else piecesFrom sep s start quoted rest

/-- The names and values of an argument list. -/
def parseArguments (arguments : List Char) : Except Halt (List (String × String)) := do
  let pieces ← piecesFrom ',' arguments 0 false (Text.withOffsets 0 arguments)
  lift (((pieces.map Text.trim).filter fun piece => !piece.isEmpty).mapM parseArgument)

/-- The filter of an argument's value. -/
def parseFilter (value : String) : Except Halt EventFilter := do
  let parts := (Text.splitOn ',' value.toList).map Text.trim
  if parts.length ≠ 4 ∧ parts.length ≠ 5 then .error (.fault (.filterShape value))
  else
    let epsilon ←
      match parts[4]? with
      | some epsilon => lift (parseEpsilon epsilon)
      | none => pure 0
    let start ← inRange parts[0]?
    let stop ← inRange parts[1]?
    let priority ← inRange parts[2]?
    let algorithm ← lift (FilterAlgorithm.ofName (String.ofList (← inRange parts[3]?)))
    return ⟨String.ofList start, String.ofList stop, String.ofList priority, algorithm, epsilon⟩

/-- Sets what an argument gives. -/
def applyArgument (q : ComplexQuery) (argument : String × String) : Except Halt ComplexQuery :=
  if argument.1 = "FILTER" then do return { q with filter := some (← parseFilter argument.2) }
  else lift (Dsl.applyArgument q argument)

/-! ## Tokens

A condition is scanned by the positions of its characters, which are counted one by one.
-/

/-- The characters from one position up to another. -/
def span (start stop : Nat) (text : List Char) : Except Halt (List Char) :=
  if start ≤ stop ∧ stop ≤ text.length then .ok (between start stop text) else .error .outOfRange

/-- The first position from one on whose character is not of the kind. -/
def skip (kind : Char → Bool) (text : List Char) (i : Nat) : Nat :=
  if h : i < text.length then if kind text[i] then skip kind text (i + 1) else i else i
termination_by text.length - i

theorem le_skip (kind : Char → Bool) (text : List Char) (i : Nat) : i ≤ skip kind text i := by
  fun_induction skip kind text i with
  | case1 i _ _ ih => exact Nat.le_of_succ_le ih
  | case2 => exact Nat.le_refl _
  | case3 => exact Nat.le_refl _

/-- The operator and quoted value after a key, and the position behind them. -/
def scanComparison (key : String) (text : List Char) (i : Nat) :
    Except Halt (Comparison × Nat) := do
  let first := skip Text.isBlank text i
  let last := skip isOperatorChar text first
  let spelling := String.ofList (← span first last text)
  match Operator.ofSpelling spelling with
  | none => .error (.fault (.missingComparison key spelling))
  | some operator =>
    let quote := skip Text.isBlank text last
    if text[quote]? = some Text.quoteMark then
      let stop := skip (· != Text.quoteMark) text (quote + 1)
      if stop < text.length then
        let value ← span (quote + 1) stop text
        return (⟨key, operator, String.ofList value⟩, stop + 1)
      else .error (.fault (.unterminatedValue key))
    else .error (.fault (.missingValue key spelling))

theorem lt_skip {kind : Char → Bool} {text : List Char} {i : Nat} (h : i < text.length)
    (hkind : kind text[i] = true) : i < skip kind text i := by
  rw [skip, dif_pos h, if_pos hkind]
  exact le_skip kind text (i + 1)

theorem lt_of_scanComparison {key : String} {text : List Char} {i next : Nat} {c : Comparison}
    (h : scanComparison key text i = .ok (c, next)) : i < next := by
  have hfirst := le_skip Text.isBlank text i
  have hlast := le_skip isOperatorChar text (skip Text.isBlank text i)
  have hquote := le_skip Text.isBlank text (skip isOperatorChar text (skip Text.isBlank text i))
  have hstop := le_skip (· != Text.quoteMark) text
    (skip Text.isBlank text (skip isOperatorChar text (skip Text.isBlank text i)) + 1)
  unfold scanComparison at h
  dsimp only [bind, Except.bind] at h
  split at h
  · cases h
  · split at h
    · cases h
    · split at h
      · split at h
        · split at h
          · cases h
          · cases h
            omega
        · cases h
      · cases h

/-- The tokens of a text from a position on. -/
def tokensFrom (text : List Char) (i : Nat) : Except Halt (List Token) :=
  if h : i < text.length then
    if Text.isBlank text[i] then tokensFrom text (i + 1)
    else if text[i] = '(' then return .opening :: (← tokensFrom text (i + 1))
    else if text[i] = ')' then return .closing :: (← tokensFrom text (i + 1))
    else if _hkey : isKeyChar text[i] then
      match span i (skip isKeyChar text i) text with
      | .error halt => .error halt
      | .ok word =>
        match Token.ofWord word with
        | some token => return token :: (← tokensFrom text (skip isKeyChar text i))
        | none =>
          match _h : scanComparison (String.ofList word) text (skip isKeyChar text i) with
          | .error halt => .error halt
          | .ok (comparison, next) => return .comparison comparison :: (← tokensFrom text next)
    else .error (.fault (.unexpectedCharacter text[i] i (String.ofList text)))
  else return []
termination_by text.length - i
decreasing_by
  all_goals try omega
  · have := lt_skip h _hkey
    omega
  · have := lt_skip h _hkey
    have := lt_of_scanComparison _h
    omega

/-- The criterion of a text. -/
def parseCondition (text : List Char) : Except Halt Criteria := do
  lift (criterionOf (String.ofList text) (← tokensFrom text 0))

/-! ## Statements -/

/-- The query of a selection. -/
def parseSelection (body : List Char) : Except Halt ComplexQuery := do
  if ← startsWithKeyword "SELECT".toList body then
    match ← findKeyword "FROM".toList body with
    | none => .error (.fault (.missingFrom (String.ofList body)))
    | some fromAt =>
      let whereAt := (← findKeyword "WHERE".toList body).filter (fromAt < ·)
      let fields ← cut (Text.byteCount "SELECT".toList) fromAt body
      let afterFrom := fromAt + Text.byteCount "FROM".toList
      let (types, query) ←
        match whereAt with
        | none => pure (← cutFrom afterFrom body, Query.everything)
        | some whereAt =>
          let types ← cut afterFrom whereAt body
          let condition ← parseCondition (← cutFrom (whereAt + Text.byteCount "WHERE".toList) body)
          pure (types, ⟨[condition]⟩)
      return { query, fields := parseList fields, types := parseList types,
               sortBy := none, format := none, filter := none }
  else .error (.fault (.missingSelect (String.ofList body)))

/-- The query of a statement. -/
def parseStatement (text : String) : Except Halt ComplexQuery := do
  let (arguments, body) ← splitStatement (Text.trim text.toList)
  let selection ← parseSelection body
  (← parseArguments arguments).foldlM applyArgument selection

end Checked

end ArchiveCatalog.Dsl
