import ArchiveCatalog.Text.Blank

namespace ArchiveCatalog.Text

/-! # Cutting text at separators

`splitOn` cuts at every separator, `splitUnquoted` at those outside single quotes. Both
keep empty pieces, and joining the pieces with the separator gives the text back.
-/

/-- The single quote, which delimits values. -/
def quoteMark : Char := '\x27'

/-- Prepends a character to the first piece. -/
def extendFirst (c : Char) : List (List Char) → List (List Char)
  | [] => [[c]]
  | piece :: pieces => (c :: piece) :: pieces

/-- The pieces between the separators, at least one. -/
def splitOn (sep : Char) : List Char → List (List Char)
  | [] => [[]]
  | c :: rest => if c = sep then [] :: splitOn sep rest else extendFirst c (splitOn sep rest)

/-- The pieces between the separators that stand outside single quotes. -/
def splitUnquoted (sep : Char) (quoted : Bool) : List Char → List (List Char)
  | [] => [[]]
  | c :: rest =>
    if c = quoteMark then extendFirst c (splitUnquoted sep (!quoted) rest)
    else if c = sep ∧ quoted = false then [] :: splitUnquoted sep quoted rest
    else extendFirst c (splitUnquoted sep quoted rest)

/-- The text before and after the first separator. -/
def cutAt (sep : Char) : List Char → Option (List Char × List Char)
  | [] => none
  | c :: rest =>
    if c = sep then some ([], rest)
    else (cutAt sep rest).map fun (before, after) => (c :: before, after)

/-- What follows `start`, if the text begins with it. -/
def dropStart (start : List Char) (s : List Char) : Option (List Char) :=
  if start.isPrefixOf s then some (s.drop start.length) else none

/-- What precedes `tail`, if the text ends with it. -/
def dropTail (tail : List Char) (s : List Char) : Option (List Char) :=
  if tail.isSuffixOf s then some (s.take (s.length - tail.length)) else none

/-- Joins texts with a separator between neighbours. -/
def join (sep : String) : List String → String
  | [] => ""
  | [s] => s
  | s :: rest => s ++ sep ++ join sep rest

end ArchiveCatalog.Text
