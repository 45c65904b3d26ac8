import ArchiveCatalog.Query
import ArchiveCatalog.Text.Pieces

namespace ArchiveCatalog.Dsl

/-! # Printing queries

Criteria and complex queries are printed in the language they are read from. A value with
a single quote has no spelling there.
-/

/-- No parenthesis closes the first one before the end of the text; quoted ones do not
count. -/
def staysOpen (depth : Nat) (quoted : Bool) : List Char → Bool
  | [] => true
  | c :: rest =>
    if c = Text.quoteMark then staysOpen depth (!quoted) rest
    else if c = '(' ∧ quoted = false then staysOpen (depth + 1) quoted rest
    else if c = ')' ∧ quoted = false then
      if depth ≤ 1 ∧ !rest.isEmpty then false else staysOpen (depth - 1) quoted rest
    else staysOpen depth quoted rest

/-- The text without one pair of parentheses around all of it. -/
def withoutParens (s : List Char) : List Char :=
  if s.head? = some '(' ∧ s.getLast? = some ')' ∧ staysOpen 0 false s then (s.drop 1).dropLast
  else s

/-- `withoutParens` on strings. -/
def stripParens (s : String) : String := String.ofList (withoutParens s.toList)

/-- A comparison. -/
def printComparison (element operator value : String) : String :=
  element ++ " " ++ operator ++ " '" ++ value ++ "'"

/-- A range: one comparison, or two in parentheses. -/
def printRange (element : String) (bounds : Bounds) (inclusive : Bool) : String :=
  let greater := if inclusive then ">=" else ">"
  let less := if inclusive then "<=" else "<"
  match bounds with
  | .start lower => printComparison element greater lower
  | .stop upper => printComparison element less upper
  | .both lower upper =>
    "(" ++ printComparison element greater lower ++ " AND " ++
      printComparison element less upper ++ ")"

mutual

/-- A criterion as text. -/
def printCriteria : Criteria → String
  | .term element value => printComparison element "==" value
  | .range element bounds inclusive => printRange element bounds inclusive
  | .junction operator members =>
    "(" ++ Text.join (" " ++ operator.word ++ " ") (printMembers members) ++ ")"
  | .negation (.term element value) => printComparison element "!=" value
  | .negation member => "NOT(" ++ stripParens (printCriteria member) ++ ")"

/-- The members of a junction as texts. -/
def printMembers : List Criteria → List String
  | [] => []
  | c :: cs => printCriteria c :: printMembers cs

end

/-- A list with commas, a star for no list. -/
def printList : Option (List String) → String
  | none => "*"
  | some items => Text.join "," items

/-- The value of a filter argument. -/
def printFilter (f : EventFilter) : String :=
  Text.join "," [f.startKey, f.endKey, f.priorityKey, f.algorithm.label, toString f.epsilon]

/-- An argument with its value in quotes. -/
def printArgument (name value : String) : String := name ++ "='" ++ value ++ "'"

/-- The arguments of a complex query. -/
def printArguments (q : ComplexQuery) : List String :=
  (q.format.map (printArgument "FORMAT")).toList ++
    (q.sortBy.map (printArgument "SORT_BY")).toList ++
    (q.filter.map fun f => printArgument "FILTER" (printFilter f)).toList

/-- A complex query as a statement. -/
def printStatement (q : ComplexQuery) : String :=
  let arguments := printArguments q
  "SQL " ++ (if arguments.isEmpty then "" else "(" ++ Text.join ", " arguments ++ ") ") ++
    "\x7b SELECT " ++ printList q.fields ++ " FROM " ++ printList q.types ++
    (match q.query.asCriterion with
    | none => ""
    | some c => " WHERE " ++ stripParens (printCriteria c)) ++ " \x7d"

end ArchiveCatalog.Dsl
