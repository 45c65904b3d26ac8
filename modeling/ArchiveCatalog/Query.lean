import ArchiveCatalog.Criteria
import ArchiveCatalog.Text.Ascii
import ArchiveCatalog.Text.Pieces

namespace ArchiveCatalog

/-! # Queries

A query is a list of criteria that must all hold. A complex query adds the fields and
product types asked for, a sort key, an output format and a filter on time events.
-/

/-- Criteria that must all hold; none restricts nothing. -/
structure Query where
  criteria : List Criteria
  deriving DecidableEq, Repr

namespace Query

/-- The query that restricts nothing. -/
def everything : Query := ⟨[]⟩

instance : Inhabited Query := ⟨everything⟩

/-- There is no criterion. -/
def isEmpty (q : Query) : Bool := q.criteria.isEmpty

/-- The metadata satisfy every criterion. -/
def holds (q : Query) (m : Metadata) : Bool := q.criteria.all (·.holds m)

/-- The query as one criterion, if it has any. -/
def asCriterion : Query → Option Criteria
  | ⟨[]⟩ => none
  | ⟨[c]⟩ => some c
  | ⟨cs⟩ => some (.junction .all cs)

/-- The elements mentioned, each criterion's in order of first occurrence. -/
def elements (q : Query) : List String := q.criteria.flatMap Criteria.elements

/-- The query with one more criterion. -/
def restrict (q : Query) (c : Criteria) : Query := ⟨q.criteria ++ [c]⟩

/-- One criterion holds exactly when the query does. -/
theorem holds_asCriterion {q : Query} {c : Criteria} (h : q.asCriterion = some c)
    (m : Metadata) : c.holds m = q.holds m := by
  match q with
  | ⟨[]⟩ => simp [asCriterion] at h
  | ⟨[d]⟩ => simp [asCriterion] at h; simp [holds, h]
  | ⟨d :: e :: rest⟩ =>
    simp only [asCriterion, Option.some.injEq] at h
    subst h
    simp [holds, Criteria.holds, Criteria.allHold_eq_all]

end Query

/-! ## Filters -/

/-- How overlapping time events are thinned out. -/
inductive FilterAlgorithm
  | weightedHash
  | takeHighestPriority
  deriving DecidableEq, Repr

namespace FilterAlgorithm

/-- The name of an algorithm. -/
def label : FilterAlgorithm → String
  | .weightedHash => "WeightedHash"
  | .takeHighestPriority => "TakeHighestPriority"

/-- What follows the last point of a text. -/
def afterLastPoint (s : List Char) : List Char :=
  (s.reverse.takeWhile (· != '.')).reverse

/-- The ending that class-style names of algorithms may have. -/
def classEnding : List Char := "FilterAlgor".toList

/-- The algorithm of a name: bare or class-style, dotted or not, in any ASCII case. -/
def ofName (name : String) : Except QueryFault FilterAlgorithm :=
  let last := afterLastPoint (Text.trim name.toList)
  let base := (Text.dropTail classEnding last).getD last
  let word := base.map Char.toLower
  if word = "weightedhash".toList then .ok .weightedHash
  else if word = "takehighestpriority".toList then .ok .takeHighestPriority
  else .error (.unknownAlgorithm name)

end FilterAlgorithm

/-- The metadata keys that make a hit a time event, and how events are thinned out.
`epsilon` is the overlap that is tolerated, in milliseconds. -/
structure EventFilter where
  startKey : String
  endKey : String
  priorityKey : String
  algorithm : FilterAlgorithm
  epsilon : Int
  deriving DecidableEq, Repr

/-- A query with what to return of its hits and how. No list of fields or types means all
of them. -/
structure ComplexQuery where
  query : Query
  fields : Option (List String)
  types : Option (List String)
  sortBy : Option String
  format : Option String
  filter : Option EventFilter
  deriving DecidableEq, Repr, Inhabited

end ArchiveCatalog
