import ArchiveCatalog.Dsl.Token

namespace ArchiveCatalog.Dsl

/-! # Conditions

A condition is put into reverse Polish order by an operator stack and then evaluated to a
criterion. AND binds tighter than OR, and both group to the left. A NOT before a
parenthesis negates the group; any other NOT waits for the end of the group around it and
so negates everything after it.
-/

/-- A step of a condition in reverse Polish order. -/
inductive Step
  | operand (c : Comparison)
  | and
  | or
  | not
  deriving DecidableEq, Repr

/-- An operator, or an opening parenthesis, that waits on the stack. -/
inductive Pending
  | opening
  | and
  | or
  | not
  deriving DecidableEq, Repr

/-- The step of a pending operator; a parenthesis has none. -/
def Pending.step? : Pending → Option Step
  | .opening => none
  | .and => some .and
  | .or => some .or
  | .not => some .not

/-! ## Reverse Polish order -/

/-- Takes operators off the stack up to the opening parenthesis, which goes too. -/
def popGroup : List Pending → Except QueryFault (List Step × List Pending)
  | [] => .error .unexpectedClose
  | .opening :: stack => .ok ([], stack)
  | .and :: stack => (popGroup stack).map fun (steps, rest) => (.and :: steps, rest)
  | .or :: stack => (popGroup stack).map fun (steps, rest) => (.or :: steps, rest)
  | .not :: stack => (popGroup stack).map fun (steps, rest) => (.not :: steps, rest)

/-- Takes one NOT off the stack if it is on top. -/
def popNegation : List Pending → List Step × List Pending
  | .not :: stack => ([.not], stack)
  | stack => ([], stack)

/-- Takes the ANDs on top off the stack. -/
def popAnds : List Pending → List Step × List Pending
  | .and :: stack =>
    let (steps, rest) := popAnds stack
    (.and :: steps, rest)
  | stack => ([], stack)

/-- Takes the ANDs and ORs on top off the stack. -/
def popJunctions : List Pending → List Step × List Pending
  | .and :: stack =>
    let (steps, rest) := popJunctions stack
    (.and :: steps, rest)
  | .or :: stack =>
    let (steps, rest) := popJunctions stack
    (.or :: steps, rest)
  | stack => ([], stack)

/-- Empties the stack, which must hold no parenthesis. -/
def popAll : List Pending → Except QueryFault (List Step)
  | [] => .ok []
  | p :: stack =>
    match p.step? with
    | none => .error .missingClose
    | some step => return step :: (← popAll stack)

/-- The steps of the tokens that are left, given the stack. -/
def polishFrom (stack : List Pending) : List Token → Except QueryFault (List Step)
  | [] => popAll stack
  | .comparison c :: rest => return .operand c :: (← polishFrom stack rest)
  | .opening :: rest => polishFrom (.opening :: stack) rest
  | .not :: rest => polishFrom (.not :: stack) rest
  | .and :: rest => do
    let (steps, stack) := popAnds stack
    return steps ++ (← polishFrom (.and :: stack) rest)
  | .or :: rest => do
    let (steps, stack) := popJunctions stack
    return steps ++ (← polishFrom (.or :: stack) rest)
  | .closing :: rest => do
    let (group, stack) ← popGroup stack
    let (negation, stack) := popNegation stack
    return group ++ negation ++ (← polishFrom stack rest)

/-- The tokens in reverse Polish order. -/
def polish (tokens : List Token) : Except QueryFault (List Step) := polishFrom [] tokens

/-! ## Evaluation -/

/-- Applies one step to the operands so far, the latest first. -/
def Step.apply : Step → List Criteria → Except QueryFault (List Criteria)
  | .operand c, operands => .ok (c.criteria :: operands)
  | .and, second :: first :: rest => .ok (.junction .all [first, second] :: rest)
  | .and, _ => .error (.missingOperand "AND")
  | .or, second :: first :: rest => .ok (.junction .any [first, second] :: rest)
  | .or, _ => .error (.missingOperand "OR")
  | .not, member :: rest => .ok (.negation member :: rest)
  | .not, [] => .error (.missingOperand "NOT")

/-- Applies steps one after the other. -/
def evaluate (operands : List Criteria) : List Step → Except QueryFault (List Criteria)
  | [] => .ok operands
  | step :: rest => do evaluate (← step.apply operands) rest

/-- The criterion of tokens. -/
def criterionOf (text : String) (tokens : List Token) : Except QueryFault Criteria := do
  let steps ← polish tokens
  if steps.isEmpty then .error .emptyCriteria
  else
    match ← evaluate [] steps with
    | [c] => .ok c
    | _ => .error (.severalExpressions text)

/-- The criterion of a text. -/
def parseCondition (text : List Char) : Except QueryFault Criteria := do
  criterionOf (String.ofList text) (← tokenize text)

end ArchiveCatalog.Dsl
