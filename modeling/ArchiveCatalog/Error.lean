namespace ArchiveCatalog

/-! # Errors

An error is a cause; its kind and its wording are functions of the cause. Query text and
criteria fail with a `QueryFault`, the relational store with a `StoreFault`.
-/

/-- What an error means to the caller. -/
inductive ErrorKind
  | connection
  | schema
  | queryFormulation
  | notFound
  | uniquenessViolation
  | transaction
  | serialization
  | internal
  deriving DecidableEq, Repr

/-- The name a kind is reported under. -/
def ErrorKind.label : ErrorKind → String
  | .connection => "connection"
  | .schema => "schema"
  | .queryFormulation => "query_formulation"
  | .notFound => "not_found"
  | .uniquenessViolation => "uniqueness_violation"
  | .transaction => "transaction"
  | .serialization => "serialization"
  | .internal => "internal"

/-! ## Queries that cannot be read or run -/

/-- Why query text, a criterion, a page request or a filter is malformed. -/
inductive QueryFault
  | unboundedRange (element : String)
  | negationArity (count : Nat)
  | emptyJunction (operator : String)
  | unknownAlgorithm (name : String)
  | unexpectedCharacter (found : Char) (position : Nat) (text : String)
  | missingComparison (key operator : String)
  | missingValue (key operator : String)
  | unterminatedValue (key : String)
  | unexpectedClose
  | missingClose
  | emptyCriteria
  | missingOperand (operator : String)
  | severalExpressions (text : String)
  | unterminatedArguments
  | unenclosedBody
  | malformedArgument (piece : String)
  | unknownArgument (name : String)
  | filterShape (value : String)
  | filterEpsilon (value : String)
  | missingSelect (body : String)
  | missingFrom (body : String)
  | unreadableTime (value : String)
  | unreadablePriority (value key : String)
  | missingFilterValue (product key : String)
  | emptyPage
  | invalidPage (number : Int)
  deriving DecidableEq, Repr

/-- The wording of a query fault. -/
def QueryFault.message : QueryFault → String
  | .unboundedRange element => s!"range on '{element}' needs a start or an end value"
  | .negationArity count => s!"NOT requires exactly one term, got {count}"
  | .emptyJunction operator => s!"{operator} requires at least one term"
  | .unknownAlgorithm name => s!"unknown filter algorithm: {name}"
  | .unexpectedCharacter found position text =>
    s!"unexpected '{found}' at position {position} in '{text}'"
  | .missingComparison key operator =>
    s!"expected comparison operator after '{key}', found '{operator}'"
  | .missingValue key operator => s!"expected quoted value after '{key} {operator}'"
  | .unterminatedValue key => s!"unterminated literal for '{key}'"
  | .unexpectedClose => "unbalanced parentheses: unexpected ')'"
  | .missingClose => "unbalanced parentheses: missing ')'"
  | .emptyCriteria => "empty criteria"
  | .missingOperand operator => s!"{operator} is missing an operand"
  | .severalExpressions text => s!"criteria '{text}' does not reduce to a single expression"
  | .unterminatedArguments => "unterminated argument list"
  | .unenclosedBody => "query body must be enclosed in '\x7b ... \x7d'"
  | .malformedArgument piece => s!"malformed query argument '{piece}'"
  | .unknownArgument name => s!"unknown query argument '{name}'"
  | .filterShape value =>
    s!"FILTER needs 'start,end,priority,algorithm[,epsilon]', got '{value}'"
  | .filterEpsilon value => s!"FILTER epsilon '{value}' is not an integer"
  | .missingSelect body => s!"expected SELECT in '{body}'"
  | .missingFrom body => s!"missing FROM in '{body}'"
  | .unreadableTime value => s!"'{value}' is not a recognizable time"
  | .unreadablePriority value key => s!"priority '{value}' of '{key}' is not a number"
  | .missingFilterValue product key =>
    s!"product '{product}' has no value for filter key '{key}'"
  | .emptyPage => "page size must be positive"
  | .invalidPage number => s!"invalid page number {number}"

/-! ## Faults of the relational store -/

/-- Why the relational store refuses a statement. -/
inductive StoreFault
  | noSuchTable (name : String)
  | noSuchColumn (name : String)
  | duplicateColumn (name : String)
  | reservedName (name : String)
  | missingText (column : String)
  | constraintViolated (column : String)
  | notANumber (column : String)
  | full
  deriving DecidableEq, Repr

/-! ## Catalog errors -/

/-- A part of the surroundings that a catalog calls and that may fail. -/
inductive Collaborator
  | validation
  | repository
  | service
  deriving DecidableEq, Repr

/-- The name a collaborator is reported under. -/
def Collaborator.label : Collaborator → String
  | .validation => "validation"
  | .repository => "repository"
  | .service => "service"

/-- Why a catalog operation fails. -/
inductive CatalogError
  | query (fault : QueryFault)
  | unresolvedType (id name : String)
  | undeclaredElement (element type : String)
  | unknownElement (key : String)
  | unusableName (name : String)
  | notFound (what key : String)
  | alreadyRegistered (name id : String)
  | ambiguousProduct (count : Nat) (name : String)
  | ambiguousType (name : String)
  | store (fault : StoreFault)
  | unknownStructure (text : String)
  | unknownStatus (text : String)
  | missingRecordKey (key : String)
  | badReceivedTime (text : String)
  | malformedJson
  | offline (collaborator : Collaborator)
  | reported (kind : ErrorKind) (text : String)
  deriving DecidableEq, Repr

namespace CatalogError

/-- The kind of an error. -/
def kind : CatalogError → ErrorKind
  | .query _ => .queryFormulation
  | .unresolvedType .. | .undeclaredElement .. | .unknownElement _ | .unusableName _ => .schema
  | .notFound .. => .notFound
  | .alreadyRegistered .. | .ambiguousProduct .. | .ambiguousType _ => .uniquenessViolation
  | .store (.constraintViolated _) => .uniquenessViolation
  | .store _ => .transaction
  | .unknownStructure _ | .unknownStatus _ | .missingRecordKey _ | .badReceivedTime _
  | .malformedJson => .serialization
  | .offline _ => .internal
  | .reported kind _ => kind

/-- The wording of an error. -/
def message : CatalogError → String
  | .query fault => fault.message
  | .unresolvedType id name => s!"cannot resolve product type (id '{id}', name '{name}')"
  | .undeclaredElement element type =>
    s!"element '{element}' is not declared for product type '{type}'"
  | .unknownElement key => s!"unknown element: {key}"
  | .unusableName name => s!"'{name}' cannot be used as a table or column name"
  | .notFound what key => s!"{what} not found: {key}"
  | .alreadyRegistered name id => s!"product '{name}' already has id {id}"
  | .ambiguousProduct count name => s!"{count} products named '{name}'"
  | .ambiguousType name => s!"more than one product type named '{name}'"
  | .store _ => "SQLite error"
  | .unknownStructure text => s!"unknown product structure: {text}"
  | .unknownStatus text => s!"unknown transfer status: {text}"
  | .missingRecordKey key => s!"service record lacks '{key}'"
  | .badReceivedTime text => s!"invalid received time '{text}'"
  | .malformedJson => "JSON error"
  | .offline collaborator => collaborator.label ++ " offline"
  | .reported _ text => text

/-- Kind and wording together. -/
def display (e : CatalogError) : String := "[" ++ e.kind.label ++ "] " ++ e.message

/-- The error says that something looked for is not there. -/
def isNotFound (e : CatalogError) : Bool := e.kind == .notFound

/-- The error passes on one of the store or of the JSON reader. -/
def hasSource : CatalogError → Bool
  | .store _ | .malformedJson | .unknownElement _ => true
  | _ => false

end CatalogError

end ArchiveCatalog
