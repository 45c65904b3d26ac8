import ArchiveCatalog.Error
import ArchiveCatalog.Metadata

namespace ArchiveCatalog

/-! # Criteria

A criterion is a comparison of one element, a conjunction, a disjunction or a negation.
`Criteria.holds` is its meaning on metadata: a comparison holds when some value of the
element satisfies it, and negation is the complement, so a product that lacks the element
satisfies the negated comparison.
-/

/-- The bounds of a range, at least one. -/
inductive Bounds
  | start (lower : String)
  | stop (upper : String)
  | both (lower upper : String)
  deriving DecidableEq, Repr

namespace Bounds

/-- The lower bound. -/
def lower? : Bounds → Option String
  | .start lower | .both lower _ => some lower
  | .stop _ => none

/-- The upper bound. -/
def upper? : Bounds → Option String
  | .stop upper | .both _ upper => some upper
  | .start _ => none

/-- The value lies above a lower bound. -/
def above (inclusive : Bool) (lower value : String) : Bool :=
  if inclusive then lower ≤ value else lower < value

/-- The value lies below an upper bound. -/
def below (inclusive : Bool) (upper value : String) : Bool :=
  if inclusive then value ≤ upper else value < upper

/-- The value lies between the bounds, which belong to the range if it is inclusive. -/
def contains (b : Bounds) (inclusive : Bool) (value : String) : Bool :=
  match b with
  | .start lower => above inclusive lower value
  | .stop upper => below inclusive upper value
  | .both lower upper => above inclusive lower value && below inclusive upper value

end Bounds

/-- How the members of a junction are combined. -/
inductive Junction
  | all
  | any
  deriving DecidableEq, Repr

/-- The word for a junction. -/
def Junction.word : Junction → String
  | .all => "AND"
  | .any => "OR"

/-- A criterion on the metadata of a product. -/
inductive Criteria
  | term (element value : String)
  | range (element : String) (bounds : Bounds) (inclusive : Bool)
  | junction (operator : Junction) (members : List Criteria)
  | negation (member : Criteria)
  deriving Repr, Inhabited

namespace Criteria

/-! ## Equality -/

mutual

/-- Equality of criteria. -/
def eqb : Criteria → Criteria → Bool
  | .term e v, .term e' v' => e == e' && v == v'
  | .range e b i, .range e' b' i' => e == e' && b == b' && i == i'
  | .junction o ms, .junction o' ms' => o == o' && eqbList ms ms'
  | .negation m, .negation m' => eqb m m'
  | _, _ => false

/-- Equality of lists of criteria. -/
def eqbList : List Criteria → List Criteria → Bool
  | [], [] => true
  | c :: cs, d :: ds => eqb c d && eqbList cs ds
  | _, _ => false

end

mutual

theorem eqb_iff : ∀ c d : Criteria, eqb c d = true ↔ c = d
  | .term e v, d => by cases d <;> simp [eqb]
  | .range e b i, d => by cases d <;> simp [eqb, and_assoc]
  | .junction o ms, d => by cases d <;> simp [eqb, eqbList_iff ms]
  | .negation m, d => by cases d <;> simp [eqb, eqb_iff m]

theorem eqbList_iff : ∀ cs ds : List Criteria, eqbList cs ds = true ↔ cs = ds
  | [], ds => by cases ds <;> simp [eqbList]
  | c :: cs, ds => by cases ds <;> simp [eqbList, eqb_iff c, eqbList_iff cs]

end

instance : DecidableEq Criteria := fun c d => decidable_of_iff _ (eqb_iff c d)

/-! ## Construction -/

/-- A range needs a bound. -/
def range? (element : String) (lower upper : Option String) (inclusive : Bool) :
    Except QueryFault Criteria :=
  match lower, upper with
  | some lower, some upper => .ok (.range element (.both lower upper) inclusive)
  | some lower, none => .ok (.range element (.start lower) inclusive)
  | none, some upper => .ok (.range element (.stop upper) inclusive)
  | none, none => .error (.unboundedRange element)

/-- A junction needs a member. -/
def junction? (operator : Junction) (members : List Criteria) : Except QueryFault Criteria :=
  if members.isEmpty then .error (.emptyJunction operator.word)
  else .ok (.junction operator members)

/-- A negation needs exactly one member. -/
def negation? : List Criteria → Except QueryFault Criteria
  | [member] => .ok (.negation member)
  | members => .error (.negationArity members.length)

mutual

/-- Every junction in the tree has a member, as in every tree built by `range?`,
`junction?` and `negation?`. -/
def isValid : Criteria → Bool
  | .term .. | .range .. => true
  | .junction _ members => !members.isEmpty && areValid members
  | .negation member => isValid member

/-- Every criterion of the list is valid. -/
def areValid : List Criteria → Bool
  | [] => true
  | c :: cs => isValid c && areValid cs

end

/-! ## Elements -/

/-- The element of a comparison. -/
def element? : Criteria → Option String
  | .term element _ | .range element .. => some element
  | .junction .. | .negation _ => none

mutual

/-- The elements of the comparisons from left to right, with repetitions. -/
def mentions : Criteria → List String
  | .term element _ | .range element .. => [element]
  | .junction _ members => mentionsOf members
  | .negation member => mentions member

/-- The elements of the comparisons of several criteria. -/
def mentionsOf : List Criteria → List String
  | [] => []
  | c :: cs => mentions c ++ mentionsOf cs

end

/-- The first occurrences of the members of a list. -/
def firstOccurrences (seen : List String) : List String → List String
  | [] => []
  | s :: rest =>
    if s ∈ seen then firstOccurrences seen rest else s :: firstOccurrences (s :: seen) rest

/-- The distinct elements of the tree in order of first occurrence. -/
def elements (c : Criteria) : List String := firstOccurrences [] c.mentions

/-! ## Meaning -/

mutual

/-- The metadata satisfy the criterion. -/
def holds (m : Metadata) : Criteria → Bool
  | .term element value => (m.values element).any (· == value)
  | .range element bounds inclusive => (m.values element).any (bounds.contains inclusive)
  | .junction .all members => allHold m members
  | .junction .any members => anyHolds m members
  | .negation member => !holds m member

/-- The metadata satisfy every criterion. -/
def allHold (m : Metadata) : List Criteria → Bool
  | [] => true
  | c :: cs => holds m c && allHold m cs

/-- The metadata satisfy some criterion. -/
def anyHolds (m : Metadata) : List Criteria → Bool
  | [] => false
  | c :: cs => holds m c || anyHolds m cs

end

theorem allHold_eq_all (m : Metadata) (cs : List Criteria) : allHold m cs = cs.all (holds m) := by
  induction cs with
  | nil => rfl
  | cons c cs ih => simp [allHold, ih]

theorem anyHolds_eq_any (m : Metadata) (cs : List Criteria) : anyHolds m cs = cs.any (holds m) := by
  induction cs with
  | nil => rfl
  | cons c cs ih => simp [anyHolds, ih]

/-! ## Normal form -/

/-- The members a criterion contributes to a junction around it: its own for a junction of
the same kind, else itself. -/
def spread (operator : Junction) (c : Criteria) : List Criteria :=
  match c with
  | .junction o members => if o = operator then members else [c]
  | c => [c]

/-- A junction of the members, or the only member. -/
def ofMembers (operator : Junction) : List Criteria → Criteria
  | [c] => c
  | members => .junction operator members

mutual

/-- Nested junctions of one kind are flattened, junctions of one member are unwrapped, and
a range with two bounds becomes a conjunction of two ranges. -/
def normalized : Criteria → Criteria
  | .term element value => .term element value
  | .range element (.both lower upper) inclusive =>
    .junction .all [.range element (.start lower) inclusive, .range element (.stop upper) inclusive]
  | .range element bounds inclusive => .range element bounds inclusive
  | .junction operator members => ofMembers operator (normalizedMembers operator members)
  | .negation member => .negation (normalized member)

/-- The flattened normal forms of the members of a junction. -/
def normalizedMembers (operator : Junction) : List Criteria → List Criteria
  | [] => []
  | c :: cs => spread operator (normalized c) ++ normalizedMembers operator cs

end

end Criteria

end ArchiveCatalog
