import ArchiveCatalog.Dsl.Condition

namespace ArchiveCatalog.Dsl

/-! # Conditions on a stack of tokens

Here tokens themselves wait on the stack and come off it into the order in which they are evaluated,
so nothing but the way they are moved keeps a parenthesis from coming out with them. Evaluation
refuses one that does, which is a third end besides a criterion and a fault. What is read is the
same as by steps, and the third end is never reached.
-/

/-- How tokens are read without a criterion as the result. -/
inductive Obstacle
  | fault (f : QueryFault)
  /-- A parenthesis is to be evaluated. -/
  | parenthesis
  deriving DecidableEq, Repr

namespace Shunting

/-- What can only end in a fault. -/
def lift {α : Type} : Except QueryFault α → Except Obstacle α := Except.mapError Obstacle.fault

/-! ## Ordering -/

/-- Takes tokens off the stack up to the opening parenthesis, which goes too. -/
def popGroup : List Token → Except QueryFault (List Token × List Token)
  | [] => .error .unexpectedClose
  | .opening :: stack => .ok ([], stack)
  | token :: stack => (popGroup stack).map fun (taken, rest) => (token :: taken, rest)

/-- Takes one NOT off the stack if it is on top. -/
def popNegation : List Token → List Token × List Token
  | .not :: stack => ([.not], stack)
  | stack => ([], stack)

/-- Empties the stack, which must hold no opening parenthesis. -/
def popAll : List Token → Except QueryFault (List Token)
  | [] => .ok []
  | .opening :: _ => .error .missingClose
  | token :: stack => return token :: (← popAll stack)

/-- An AND takes the ANDs on top off the stack. -/
def isAnd (token : Token) : Bool := token == .and

/-- An OR takes the ANDs and ORs on top off the stack. -/
def isJunction (token : Token) : Bool := token == .and || token == .or

/-- The order of the tokens that are left, given the stack. -/
def orderFrom (stack : List Token) : List Token → Except QueryFault (List Token)
  | [] => popAll stack
  | .comparison c :: rest => return .comparison c :: (← orderFrom stack rest)
  | .opening :: rest => orderFrom (.opening :: stack) rest
  | .not :: rest => orderFrom (.not :: stack) rest
  | .closing :: rest => do
    let (group, stack) ← popGroup stack
    let (negation, stack) := popNegation stack
    return group ++ negation ++ (← orderFrom stack rest)
  | .and :: rest =>
    return stack.takeWhile isAnd ++ (← orderFrom (.and :: stack.dropWhile isAnd) rest)
  | .or :: rest =>
    return stack.takeWhile isJunction ++ (← orderFrom (.or :: stack.dropWhile isJunction) rest)

/-- The tokens in the order in which they are evaluated. -/
def order (tokens : List Token) : Except QueryFault (List Token) := orderFrom [] tokens

/-! ## Evaluation -/

/-- The latest operand of a connective, and the others. -/
def popOperand (connective : String) :
    List Criteria → Except QueryFault (Criteria × List Criteria)
  | [] => .error (.missingOperand connective)
  | operand :: operands => .ok (operand, operands)

/-- Joins the two latest operands in the order in which they came. -/
def joinOperands (operator : Junction) (operands : List Criteria) :
    Except QueryFault (List Criteria) := do
  let (second, operands) ← popOperand operator.word operands
  let (first, operands) ← popOperand operator.word operands
  return (← Criteria.junction? operator [first, second]) :: operands

/-- Negates the latest operand. -/
def negateOperand (operands : List Criteria) : Except QueryFault (List Criteria) := do
  let (member, operands) ← popOperand "NOT" operands
  return .negation member :: operands

/-- Evaluates one token on the operands so far, the latest first. -/
def apply (operands : List Criteria) : Token → Except Obstacle (List Criteria)
  | .comparison c => .ok (c.criteria :: operands)
  | .and => lift (joinOperands .all operands)
  | .or => lift (joinOperands .any operands)
  | .not => lift (negateOperand operands)
  | .opening | .closing => .error .parenthesis

/-- The criterion of tokens. -/
def criterionOf (text : String) (tokens : List Token) : Except Obstacle Criteria := do
  let ordered ← lift (order tokens)
  if ordered.isEmpty then .error (.fault .emptyCriteria)
  else
    match ← ordered.foldlM apply [] with
    | [c] => .ok c
    | _ => .error (.fault (.severalExpressions text))

/-- The criterion of a text. -/
def parseCondition (text : List Char) : Except Obstacle Criteria := do
  criterionOf (String.ofList text) (← lift (tokenize text))

end Shunting

end ArchiveCatalog.Dsl
