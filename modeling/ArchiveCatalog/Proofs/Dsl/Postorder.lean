import ArchiveCatalog.Proofs.CanonicalForm
import ArchiveCatalog.Proofs.Dsl.Placement

namespace ArchiveCatalog

/-! # Criteria node by node

Steps in reverse Polish order list the nodes of the tree that they evaluate to, each behind the
nodes below it. So what can be said of the steps can be said of the tree: its leaves from left to
right are the comparisons in order, and it has a node for every connective.
-/

namespace Criteria

/-- A node of a tree: a comparison, a junction of so many members, or a negation. -/
inductive Node
  | leaf (comparison : Criteria)
  | junction (operator : Junction) (members : Nat)
  | negation
  deriving DecidableEq

/-- The comparison at a leaf. -/
def Node.leaf? : Node → Option Criteria
  | .leaf comparison => some comparison
  | .junction .. | .negation => none

mutual

/-- The nodes of a tree from left to right, each behind the nodes below it. -/
def postorder : Criteria → List Node
  | .term element value => [.leaf (.term element value)]
  | .range element bounds inclusive => [.leaf (.range element bounds inclusive)]
  | .junction operator members => postorders members ++ [.junction operator members.length]
  | .negation member => postorder member ++ [.negation]

/-- The nodes of several trees one after the other. -/
def postorders : List Criteria → List Node
  | [] => []
  | c :: cs => postorder c ++ postorders cs

end

theorem postorders_append (front back : List Criteria) :
    postorders (front ++ back) = postorders front ++ postorders back := by
  induction front with
  | nil => rfl
  | cons c rest ih => rw [List.cons_append, postorders, postorders, ih, List.append_assoc]

theorem postorders_singleton (c : Criteria) : postorders [c] = c.postorder :=
  List.append_nil c.postorder

mutual

theorem leaves_eq_filterMap (c : Criteria) : c.leaves = c.postorder.filterMap Node.leaf? := by
  cases c with
  | term | range => rfl
  | junction operator members =>
    rw [leaves, postorder, List.filterMap_append, ← leavesOf_eq_filterMap members]
    exact (List.append_nil _).symm
  | negation member =>
    rw [leaves, postorder, List.filterMap_append, ← leaves_eq_filterMap member]
    exact (List.append_nil _).symm

theorem leavesOf_eq_filterMap (cs : List Criteria) :
    leavesOf cs = (postorders cs).filterMap Node.leaf? := by
  cases cs with
  | nil => rfl
  | cons c rest =>
    rw [leavesOf, postorders, List.filterMap_append, leaves_eq_filterMap c,
      leavesOf_eq_filterMap rest]

end

end Criteria

namespace Dsl

open Criteria (Node postorders postorders_append postorders_singleton)

/-! ## Steps as nodes -/

/-- The comparison of a key with a value as a leaf, which is negated for `!=`. -/
def Comparison.leaf (c : Comparison) : Criteria :=
  match c.operator with
  | .equal | .notEqual => .term c.key c.value
  | .less | .atMost | .greater | .atLeast => c.criteria

/-- The nodes that a step adds. -/
def Step.nodes : Step → List Node
  | .operand c => c.criteria.postorder
  | .and => [.junction .all 2]
  | .or => [.junction .any 2]
  | .not => [.negation]

theorem postorder_criteria (c : Comparison) :
    c.criteria.postorder = .leaf c.leaf :: if c.operator = .notEqual then [.negation] else [] := by
  obtain ⟨key, operator, value⟩ := c
  cases operator <;> rfl

/-- A step puts its nodes behind those of the operands, the earliest operand first. -/
theorem postorders_apply {step : Step} {operands result : List Criteria}
    (h : step.apply operands = .ok result) :
    postorders result.reverse = postorders operands.reverse ++ step.nodes := by
  cases step with
  | operand c =>
    cases h
    rw [List.reverse_cons, postorders_append, postorders_singleton, Step.nodes]
  | and | or =>
    rcases operands with _ | ⟨second, _ | ⟨first, rest⟩⟩
    · cases h
    · cases h
    · cases h
      simp only [List.reverse_cons, postorders_append, Criteria.postorder, Criteria.postorders,
        List.append_assoc, List.append_nil, Step.nodes, List.length_cons, List.length_nil]
  | not =>
    rcases operands with _ | ⟨member, rest⟩
    · cases h
    · cases h
      rw [List.reverse_cons, List.reverse_cons, postorders_append, postorders_append,
        postorders_singleton, postorders_singleton, Criteria.postorder, List.append_assoc]
      rfl

theorem postorders_evaluate {steps : List Step} {operands result : List Criteria}
    (h : evaluate operands steps = .ok result) :
    postorders result.reverse = postorders operands.reverse ++ steps.flatMap Step.nodes := by
  induction steps generalizing operands with
  | nil =>
    cases h
    exact (List.append_nil _).symm
  | cons step rest ih =>
    cases happly : step.apply operands with
    | error fault =>
      rw [evaluate, happly] at h
      cases h
    | ok applied =>
      rw [evaluate, happly] at h
      rw [ih h, postorders_apply happly, List.flatMap_cons, List.append_assoc]

/-- Steps that leave one criterion list its nodes. -/
theorem postorder_of_evaluate {steps : List Step} {tree : Criteria}
    (h : evaluate [] steps = .ok [tree]) : tree.postorder = steps.flatMap Step.nodes := by
  have hnodes := postorders_evaluate h
  rwa [List.reverse_singleton, postorders_singleton] at hnodes

/-! ## Counting nodes -/

/-- The comparison of a step. -/
def Step.comparison? : Step → Option Comparison
  | .operand c => some c
  | .and | .or | .not => none

theorem leaves_of_steps (steps : List Step) :
    (steps.flatMap Step.nodes).filterMap Node.leaf? =
      (steps.filterMap Step.comparison?).map Comparison.leaf := by
  induction steps with
  | nil => rfl
  | cons step rest ih =>
    rw [List.flatMap_cons, List.filterMap_append, ih]
    cases step with
    | operand c =>
      rw [Step.nodes, postorder_criteria]
      split_ifs <;> rfl
    | and | or | not => rfl

/-- The connective of a junction. -/
def connective : Junction → Step
  | .all => .and
  | .any => .or

theorem junction_mem_nodes {step : Step} {operator : Junction} {members : Nat}
    (h : .junction operator members ∈ step.nodes) : members = 2 := by
  cases step with
  | operand c =>
    rw [Step.nodes, postorder_criteria] at h
    split_ifs at h <;> simp at h
  | and | or =>
    cases List.mem_singleton.1 h
    rfl
  | not => cases List.mem_singleton.1 h

theorem count_junction_nodes (operator : Junction) (step : Step) :
    step.nodes.count (.junction operator 2) = [step].count (connective operator) := by
  cases step with
  | operand c =>
    rw [Step.nodes, postorder_criteria]
    split_ifs <;> cases operator <;> rfl
  | and | or | not => cases operator <;> rfl

/-- There is a junction of two members for every connective between two operands. -/
theorem count_junction_of_steps (operator : Junction) (steps : List Step) :
    (steps.flatMap Step.nodes).count (.junction operator 2) = steps.count (connective operator) := by
  induction steps with
  | nil => rfl
  | cons step rest ih =>
    rw [List.flatMap_cons, List.count_append, ih, count_junction_nodes, ← List.count_append,
      List.singleton_append]

/-- The comparisons that ask for another value than the one they name. -/
def negatedCount (comparisons : List Comparison) : Nat :=
  comparisons.countP (·.operator = .notEqual)

theorem count_negation_nodes (step : Step) :
    step.nodes.count .negation =
      [step].count .not + negatedCount ([step].filterMap Step.comparison?) := by
  cases step with
  | operand c =>
    obtain ⟨key, operator, value⟩ := c
    cases operator <;> rfl
  | and | or | not => rfl

/-- There is a negation for every NOT and for every comparison with `!=`. -/
theorem count_negation_of_steps (steps : List Step) :
    (steps.flatMap Step.nodes).count .negation =
      steps.count .not + negatedCount (steps.filterMap Step.comparison?) := by
  induction steps with
  | nil => rfl
  | cons step rest ih =>
    have hcount : (step :: rest).count .not = [step].count .not + rest.count .not := by
      rw [← List.singleton_append, List.count_append]
    have hnegated : negatedCount ((step :: rest).filterMap Step.comparison?) =
        negatedCount ([step].filterMap Step.comparison?) +
          negatedCount (rest.filterMap Step.comparison?) := by
      rw [negatedCount, ← List.singleton_append, List.filterMap_append, List.countP_append]
      rfl
    rw [List.flatMap_cons, List.count_append, ih, count_negation_nodes, hcount, hnegated]
    omega

end Dsl

end ArchiveCatalog
