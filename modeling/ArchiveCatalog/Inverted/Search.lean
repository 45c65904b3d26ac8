import ArchiveCatalog.Inverted.Document
import ArchiveCatalog.Query

namespace ArchiveCatalog.Inverted

/-! # Searches

A search asks for documents with a term, with a term in a range, or with combinations of
such conditions. `Search.accepts` is its meaning. A search that only excludes finds
nothing, so the search for a negation starts from the documents that have the element of
the comparison, or from all documents if the negation is of a group.
-/

/-- One end of a range of terms. -/
inductive Limit
  | included (term : String)
  | excluded (term : String)
  deriving DecidableEq, Repr

/-- The term lies above a lower limit. -/
def Limit.admitsAbove (l : Limit) (term : String) : Bool :=
  match l with
  | .included lower => lower ≤ term
  | .excluded lower => lower < term

/-- The term lies below an upper limit. -/
def Limit.admitsBelow (l : Limit) (term : String) : Bool :=
  match l with
  | .included upper => term ≤ upper
  | .excluded upper => term < upper

/-- What is looked for among documents. -/
inductive Search
  | everything
  | term (field : Field) (text : String)
  | range (field : Field) (lower upper : Limit)
  | must (members : List Search)
  | should (members : List Search)
  | butNot (found excluded : Search)
  deriving Repr, Inhabited

namespace Search

mutual

/-- The document is found. -/
def accepts (d : Document) : Search → Bool
  | .everything => true
  | .term field text => (d.terms field).contains text
  | .range field lower upper =>
    (d.terms field).any fun term => lower.admitsAbove term && upper.admitsBelow term
  | .must members => acceptedByAll d members
  | .should members => acceptedByAny d members
  | .butNot found excluded => accepts d found && !accepts d excluded

/-- Every search finds the document. -/
def acceptedByAll (d : Document) : List Search → Bool
  | [] => true
  | s :: rest => accepts d s && acceptedByAll d rest

/-- Some search finds the document. -/
def acceptedByAny (d : Document) : List Search → Bool
  | [] => false
  | s :: rest => accepts d s || acceptedByAny d rest

end

/-! ## Searches for criteria -/

/-- The search for documents with a value of an element. -/
def present (element : String) : Search :=
  .range .metadata (.included (elementLowerBound element)) (.excluded (elementUpperBound element))

/-- The lower limit of the terms in a range. -/
def lowerLimit (element : String) (bounds : Bounds) (inclusive : Bool) : Limit :=
  match bounds.lower? with
  | none => .included (elementLowerBound element)
  | some lower =>
    if inclusive then .included (metadataTerm element lower)
    else .excluded (metadataTerm element lower)

/-- The upper limit of the terms in a range. -/
def upperLimit (element : String) (bounds : Bounds) (inclusive : Bool) : Limit :=
  match bounds.upper? with
  | none => .excluded (elementUpperBound element)
  | some upper =>
    if inclusive then .included (metadataTerm element upper)
    else .excluded (metadataTerm element upper)

/-- The documents from which a negation excludes. -/
def anchor (negated : Criteria) : Search :=
  match negated.element? with
  | some element => present element
  | none => .everything

mutual

/-- The search for a criterion. -/
def ofCriteria : Criteria → Search
  | .term element value => .term .metadata (metadataTerm element value)
  | .range element bounds inclusive =>
    .range .metadata (lowerLimit element bounds inclusive) (upperLimit element bounds inclusive)
  | .junction .all members => .must (ofMembers members)
  | .junction .any members => .should (ofMembers members)
  | .negation member => .butNot (anchor member) (ofCriteria member)

/-- The searches for several criteria. -/
def ofMembers : List Criteria → List Search
  | [] => []
  | c :: rest => ofCriteria c :: ofMembers rest

end

/-- The search for the products of a type. -/
def ofType (typeId : String) : Search := .term .typeId typeId

/-- The search for the products of a type that satisfy a query. -/
def ofQuery (q : Query) (typeId : String) : Search :=
  match q.asCriterion with
  | none => ofType typeId
  | some c => .must [ofType typeId, ofCriteria c]

end Search

end ArchiveCatalog.Inverted
