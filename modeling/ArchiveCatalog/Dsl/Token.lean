import ArchiveCatalog.Criteria
import ArchiveCatalog.Text.Blank
import ArchiveCatalog.Text.Pieces

namespace ArchiveCatalog.Dsl

/-! # Tokens of the query language

The text of a condition is a sequence of connectives, parentheses and comparisons
`key operator 'value'`. A key is a longest run of key characters, an operator a longest run
of operator characters. Values hold no single quote; there is no escape.
-/

/-- The operator of a comparison. -/
inductive Operator
  | equal
  | notEqual
  | less
  | atMost
  | greater
  | atLeast
  deriving DecidableEq, Repr

/-- The operator of a spelling; equality has two. -/
def Operator.ofSpelling (s : String) : Option Operator :=
  if s = "==" ∨ s = "=" then some .equal
  else if s = "!=" then some .notEqual
  else if s = "<" then some .less
  else if s = "<=" then some .atMost
  else if s = ">" then some .greater
  else if s = ">=" then some .atLeast
  else none

/-- A key compared with a value. -/
structure Comparison where
  key : String
  operator : Operator
  value : String
  deriving DecidableEq, Repr

/-- The criterion a comparison stands for. -/
def Comparison.criteria (c : Comparison) : Criteria :=
  match c.operator with
  | .equal => .term c.key c.value
  | .notEqual => .negation (.term c.key c.value)
  | .less => .range c.key (.stop c.value) false
  | .atMost => .range c.key (.stop c.value) true
  | .greater => .range c.key (.start c.value) false
  | .atLeast => .range c.key (.start c.value) true

/-- A token of a condition. -/
inductive Token
  | opening
  | closing
  | and
  | or
  | not
  | comparison (c : Comparison)
  deriving DecidableEq, Repr

/-! ## Characters -/

/-- A character of an operator. -/
def isOperatorChar (c : Char) : Bool := c == '=' || c == '!' || c == '<' || c == '>'

/-- A character of a key: no blank, parenthesis, quote or operator character. -/
def isKeyChar (c : Char) : Bool :=
  !Text.isBlank c && c != '(' && c != ')' && c != Text.quoteMark && !isOperatorChar c

/-- The token of a word that is a connective. -/
def Token.ofWord (word : List Char) : Option Token :=
  if word = "AND".toList then some .and
  else if word = "OR".toList then some .or
  else if word = "NOT".toList then some .not
  else none

/-! ## Scanning -/

/-- The operator and quoted value after a key, and the rest of the text. -/
def scanComparison (key : String) (s : List Char) :
    Except QueryFault (Comparison × List Char) :=
  let s := Text.trimStart s
  let spelling := String.ofList (s.takeWhile isOperatorChar)
  match Operator.ofSpelling spelling with
  | none => .error (.missingComparison key spelling)
  | some operator =>
    match Text.trimStart (s.dropWhile isOperatorChar) with
    | [] => .error (.missingValue key spelling)
    | c :: s =>
      if c = Text.quoteMark then
        match s.dropWhile (· != Text.quoteMark) with
        | [] => .error (.unterminatedValue key)
        | _ :: rest =>
          .ok (⟨key, operator, String.ofList (s.takeWhile (· != Text.quoteMark))⟩, rest)
      else .error (.missingValue key spelling)

theorem length_dropWhile_le {α : Type} (p : α → Bool) (s : List α) :
    (s.dropWhile p).length ≤ s.length :=
  (List.dropWhile_sublist p).length_le

theorem length_scanComparison {key : String} {s rest : List Char} {c : Comparison}
    (h : scanComparison key s = .ok (c, rest)) : rest.length ≤ s.length := by
  unfold scanComparison at h
  dsimp only at h
  split at h
  · simp at h
  · split at h
    · simp at h
    · rename_i d t value
      split at h
      · split at h
        · simp at h
        · rename_i e t' close
          simp only [Except.ok.injEq, Prod.mk.injEq] at h
          obtain ⟨_, rfl⟩ := h
          have h1 := length_dropWhile_le (· != Text.quoteMark) t
          have h2 := Text.length_trimStart_le ((Text.trimStart s).dropWhile isOperatorChar)
          have h3 := length_dropWhile_le isOperatorChar (Text.trimStart s)
          have h4 := Text.length_trimStart_le s
          rw [close] at h1
          rw [value] at h2
          simp only [List.length_cons] at h1 h2
          omega
      · simp at h

/-- The tokens of what is left of a text. -/
def tokensFrom (text : List Char) (s : List Char) : Except QueryFault (List Token) :=
  match s with
  | [] => .ok []
  | c :: rest =>
    if Text.isBlank c then tokensFrom text rest
    else if c = '(' then return .opening :: (← tokensFrom text rest)
    else if c = ')' then return .closing :: (← tokensFrom text rest)
    else if isKeyChar c then
      let word := c :: rest.takeWhile isKeyChar
      let after := rest.dropWhile isKeyChar
      match Token.ofWord word with
      | some token => return token :: (← tokensFrom text after)
      | none =>
        match _h : scanComparison (String.ofList word) after with
        | .error fault => .error fault
        | .ok (comparison, left) => return .comparison comparison :: (← tokensFrom text left)
    else
      .error (.unexpectedCharacter c (text.length - s.length) (String.ofList text))
termination_by s.length
decreasing_by
  · simp
  · simp
  · simp
  · have := length_dropWhile_le isKeyChar rest
    simp only [List.length_cons]
    omega
  · have h1 := length_scanComparison _h
    have h2 : after.length ≤ rest.length := length_dropWhile_le isKeyChar rest
    simp only [List.length_cons]
    omega

/-- The tokens of a text. -/
def tokenize (text : List Char) : Except QueryFault (List Token) := tokensFrom text text

end ArchiveCatalog.Dsl
