import Mathlib.Data.List.Count
import ArchiveCatalog.Dsl.Shunting
import ArchiveCatalog.Proofs.Action
import ArchiveCatalog.Proofs.Dsl.Postorder

namespace ArchiveCatalog.Dsl

/-! # Tokens are neither lost nor invented

Tokens are put into order exactly if their parentheses are balanced. The order holds every other
token as often as it stood there, comparisons as they followed each other, and no parenthesis, so
that evaluation never meets one. What is read from a text has therefore the comparisons of the text
as its leaves, from left to right, and a node of two members for every AND and every OR.
-/

/-! ## Tokens of steps -/

/-- The token that waits on the stack. -/
def Pending.token : Pending → Token
  | .opening => .opening
  | .and => .and
  | .or => .or
  | .not => .not

/-- The token of a step. -/
def Step.token : Step → Token
  | .operand c => .comparison c
  | .and => .and
  | .or => .or
  | .not => .not

/-- No parenthesis is a step. -/
theorem Step.token_ne_parenthesis (step : Step) :
    step.token ≠ .opening ∧ step.token ≠ .closing := by
  cases step <;> exact ⟨Token.noConfusion, Token.noConfusion⟩

namespace Shunting

theorem popGroup_cons {token : Token} (h : token ≠ .opening) (stack : List Token) :
    popGroup (token :: stack) =
      (popGroup stack).map fun (taken, rest) => (token :: taken, rest) := by
  cases token with
  | opening => exact absurd rfl h
  | comparison _ | closing | and | or | not => rfl

theorem popAll_cons {token : Token} (h : token ≠ .opening) (stack : List Token) :
    popAll (token :: stack) = (do return token :: (← popAll stack)) := by
  cases token with
  | opening => exact absurd rfl h
  | comparison _ | closing | and | or | not => rfl

theorem popGroup_eq (stack : List Pending) :
    popGroup (stack.map Pending.token) = (Dsl.popGroup stack).map fun (steps, rest) =>
      (steps.map Step.token, rest.map Pending.token) := by
  induction stack with
  | nil => rfl
  | cons p stack ih =>
    cases p with
    | opening => rfl
    | and | or | not =>
      rw [List.map_cons, Pending.token, popGroup_cons Token.noConfusion, ih, Dsl.popGroup]
      cases Dsl.popGroup stack <;> rfl

theorem popNegation_eq (stack : List Pending) :
    popNegation (stack.map Pending.token) =
      ((Dsl.popNegation stack).1.map Step.token, (Dsl.popNegation stack).2.map Pending.token) := by
  cases stack with
  | nil => rfl
  | cons p stack => cases p <;> rfl

theorem popAll_eq (stack : List Pending) :
    popAll (stack.map Pending.token) = (Dsl.popAll stack).map (List.map Step.token) := by
  induction stack with
  | nil => rfl
  | cons p stack ih =>
    cases p with
    | opening => rfl
    | and | or | not =>
      rw [List.map_cons, Pending.token, popAll_cons Token.noConfusion, ih, Dsl.popAll]
      cases Dsl.popAll stack <;> rfl

theorem pop_and_eq (stack : List Pending) :
    (stack.map Pending.token).takeWhile isAnd = (popAnds stack).1.map Step.token ∧
      (stack.map Pending.token).dropWhile isAnd = (popAnds stack).2.map Pending.token := by
  induction stack with
  | nil => exact ⟨rfl, rfl⟩
  | cons p stack ih =>
    cases p with
    | and => exact ⟨congrArg (Token.and :: ·) ih.1, ih.2⟩
    | opening | or | not => exact ⟨rfl, rfl⟩

theorem pop_junction_eq (stack : List Pending) :
    (stack.map Pending.token).takeWhile isJunction = (popJunctions stack).1.map Step.token ∧
      (stack.map Pending.token).dropWhile isJunction =
        (popJunctions stack).2.map Pending.token := by
  induction stack with
  | nil => exact ⟨rfl, rfl⟩
  | cons p stack ih =>
    cases p with
    | and => exact ⟨congrArg (Token.and :: ·) ih.1, ih.2⟩
    | or => exact ⟨congrArg (Token.or :: ·) ih.1, ih.2⟩
    | opening | not => exact ⟨rfl, rfl⟩

theorem map_emit (front : List Step) (rest : Except QueryFault (List Step)) :
    (do return front.map Step.token ++ (← rest.map (List.map Step.token))) =
      (emit front rest).map (List.map Step.token) := by
  cases rest with
  | error fault => rfl
  | ok steps => exact congrArg Except.ok List.map_append.symm

/-- Only operators and opening parentheses wait on the stack, and only steps come off it. -/
theorem orderFrom_eq (stack : List Pending) (tokens : List Token) :
    orderFrom (stack.map Pending.token) tokens =
      (polishFrom stack tokens).map (List.map Step.token) := by
  induction tokens generalizing stack with
  | nil => exact popAll_eq stack
  | cons token rest ih =>
    cases token with
    | comparison c =>
      rw [orderFrom, ih, polishFrom_comparison, ← map_emit]
      rfl
    | opening => exact ih (.opening :: stack)
    | not => exact ih (.not :: stack)
    | and =>
      have hpop := pop_and_eq stack
      rw [orderFrom, hpop.1, hpop.2, polishFrom_and rfl, ← map_emit, ← ih]
      rfl
    | or =>
      have hpop := pop_junction_eq stack
      rw [orderFrom, hpop.1, hpop.2, polishFrom_or rfl, ← map_emit, ← ih]
      rfl
    | closing =>
      rw [orderFrom, popGroup_eq]
      cases hgroup : Dsl.popGroup stack with
      | error fault =>
        rw [polishFrom, hgroup]
        rfl
      | ok popped =>
        have hnot := popNegation_eq popped.2
        rw [polishFrom_closing hgroup (Prod.eta _).symm, ← map_emit, List.map_append, ← ih]
        dsimp only [Except.map, bind, Except.bind]
        rw [hnot]

theorem order_eq (tokens : List Token) :
    order tokens = (polish tokens).map (List.map Step.token) :=
  orderFrom_eq [] tokens

/-! ## Evaluation -/

theorem lift_bind {α β : Type} (x : Except QueryFault α) (f : α → Except QueryFault β) :
    lift (x >>= f) = lift x >>= fun a => lift (f a) :=
  Action.mapError_bind Obstacle.fault x f

theorem apply_token (step : Step) (operands : List Criteria) :
    apply operands step.token = lift (step.apply operands) := by
  cases step with
  | operand c => rfl
  | and | or => rcases operands with _ | ⟨second, _ | ⟨first, rest⟩⟩ <;> rfl
  | not => cases operands <;> rfl

theorem foldlM_apply (steps : List Step) (operands : List Criteria) :
    (steps.map Step.token).foldlM apply operands = lift (evaluate operands steps) := by
  induction steps generalizing operands with
  | nil => rfl
  | cons step rest ih =>
    rw [List.map_cons, List.foldlM_cons, apply_token, evaluate, lift_bind]
    exact congrArg (lift (step.apply operands) >>= ·) (funext ih)

theorem criterionOf_eq (text : String) (tokens : List Token) :
    criterionOf text tokens = lift (Dsl.criterionOf text tokens) := by
  rw [criterionOf, order_eq, Dsl.criterionOf]
  cases polish tokens with
  | error fault => rfl
  | ok steps =>
    dsimp only [Except.map, lift, Except.mapError, bind, Except.bind]
    rw [foldlM_apply, List.isEmpty_map]
    split
    · rfl
    · cases evaluate [] steps with
      | error fault => rfl
      | ok result => rcases result with _ | ⟨first, _ | ⟨second, rest⟩⟩ <;> rfl

/-- A parenthesis never comes to be evaluated. -/
theorem parseCondition_eq (text : List Char) :
    parseCondition text = lift (Dsl.parseCondition text) := by
  rw [parseCondition, Dsl.parseCondition, lift_bind]
  exact congrArg (lift (tokenize text) >>= ·) (funext (criterionOf_eq (String.ofList text)))

end Shunting

/-! ## Matched parentheses -/

/-- No parenthesis closes before one is open, and all that are opened are closed. -/
structure Matched (tokens : List Token) : Prop where
  opened : ∀ front, front <+: tokens → front.count .closing ≤ front.count .opening
  closed : tokens.count .closing = tokens.count .opening

theorem forall_prefix_cons {token : Token} {rest : List Token} {p : List Token → Prop} :
    (∀ front, front <+: token :: rest → p front) ↔
      p [] ∧ ∀ front, front <+: rest → p (token :: front) := by
  constructor
  · exact fun h => ⟨h [] List.nil_prefix, fun front hfront =>
      h (token :: front) (List.prefix_cons_inj token |>.2 hfront)⟩
  · rintro ⟨hnil, hcons⟩ front hfront
    rcases List.prefix_cons_iff.1 hfront with rfl | ⟨tail, rfl, htail⟩
    · exact hnil
    · exact hcons tail htail

/-- The parentheses are counted off, with so many open in front. -/
theorem balancedFrom_iff {depth : Nat} {tokens : List Token} :
    BalancedFrom depth tokens ↔
      (∀ front, front <+: tokens → front.count .closing ≤ depth + front.count .opening) ∧
        tokens.count .closing = depth + tokens.count .opening := by
  induction tokens generalizing depth with
  | nil =>
    simp only [BalancedFrom, List.prefix_nil, forall_eq, List.count_nil]
    omega
  | cons token rest ih =>
    rw [forall_prefix_cons]
    cases token with
    | comparison _ | and | or | not => simp [BalancedFrom, ih]
    | opening =>
      have hopened : ∀ n, depth + 1 + n = depth + (n + 1) := by omega
      simp [BalancedFrom, ih, hopened]
    | closing =>
      cases depth with
      | zero =>
        -- the text that is only this parenthesis closes what is not open
        simp only [BalancedFrom, false_iff, not_and]
        rintro ⟨-, hfront⟩
        exact absurd (hfront [] List.nil_prefix) (by decide)
      | succ depth =>
        have hclosed : ∀ n, depth + 1 + n = depth + n + 1 := by omega
        simp [BalancedFrom, ih, hclosed]

theorem matched_iff {tokens : List Token} : Matched tokens ↔ BalancedFrom 0 tokens := by
  rw [balancedFrom_iff]
  simp only [Nat.zero_add]
  exact ⟨fun h => ⟨h.opened, h.closed⟩, fun h => ⟨h.1, h.2⟩⟩

/-- Tokens with balanced parentheses are put into order, whatever else is wrong with them. -/
theorem exists_polishFrom {stack : List Pending} {tokens : List Token}
    (h : BalancedFrom (openings stack) tokens) : ∃ steps, polishFrom stack tokens = .ok steps := by
  have hemit : ∀ {front : List Step} {rest : Except QueryFault (List Step)},
      (∃ steps, rest = .ok steps) → ∃ steps, emit front rest = .ok steps := by
    rintro front _ ⟨steps, rfl⟩
    exact ⟨front ++ steps, rfl⟩
  induction tokens generalizing stack with
  | nil => exact ⟨_, popAll_eq (List.count_eq_zero.1 h)⟩
  | cons token rest ih =>
    cases token with
    | comparison c =>
      rw [polishFrom_comparison]
      exact hemit (ih h)
    | opening =>
      rw [polishFrom]
      apply ih
      rwa [openings, List.count_cons_self]
    | not =>
      rw [polishFrom]
      apply ih
      rwa [openings, List.count_cons_of_ne Pending.noConfusion]
    | and =>
      have htakes := takes_popAnds stack
      rw [polishFrom_and rfl]
      apply hemit (ih _)
      rwa [openings, List.count_cons_of_ne Pending.noConfusion, ← openings, ← htakes.openings_eq]
    | or =>
      have htakes := takes_popJunctions stack
      rw [polishFrom_or rfl]
      apply hemit (ih _)
      rwa [openings, List.count_cons_of_ne Pending.noConfusion, ← openings, ← htakes.openings_eq]
    | closing =>
      have hopen : Pending.opening ∈ stack := by
        by_contra hnone
        rw [openings, List.count_eq_zero.2 hnone] at h
        exact h
      obtain ⟨waiting, below, rfl, hwaiting⟩ := List.eq_append_cons_of_mem hopen
      have hnot := takes_popNegation below
      rw [polishFrom_closing (popGroup_append hwaiting below) (Prod.eta _).symm]
      apply hemit (ih _)
      have hcount : openings (waiting ++ .opening :: below) = openings below + 1 := by
        rw [openings, List.count_append, List.count_eq_zero.2 hwaiting, List.count_cons_self,
          Nat.zero_add]
        rfl
      rw [hcount] at h
      rwa [← hnot.openings_eq]

/-! ## Order -/

/-- The comparison of a token. -/
def Token.comparison? : Token → Option Comparison
  | .comparison c => some c
  | .opening | .closing | .and | .or | .not => none

/-- The comparisons among tokens, in order. -/
def comparisons (tokens : List Token) : List Comparison := tokens.filterMap Token.comparison?

theorem comparisons_of_stepsOf (waiting : List Pending) :
    (stepsOf waiting).filterMap Step.comparison? = [] := by
  induction waiting with
  | nil => rfl
  | cons p rest ih => cases p <;> exact ih

/-- No comparison comes off the stack. -/
theorem Takes.comparisons_eq {stack rest : List Pending} {steps : List Step}
    (h : Takes stack steps rest) : steps.filterMap Step.comparison? = [] := by
  have hstack := comparisons_of_stepsOf stack
  rw [h.stepsOf_eq, List.filterMap_append, List.append_eq_nil_iff] at hstack
  exact hstack.1

/-- The comparisons come out as they came in. -/
theorem comparisons_of_polishFrom {stack : List Pending} {tokens : List Token} {steps : List Step}
    (h : polishFrom stack tokens = .ok steps) :
    steps.filterMap Step.comparison? = comparisons tokens := by
  induction tokens generalizing stack steps with
  | nil => exact (takes_popAll h).comparisons_eq
  | cons token rest ih =>
    cases token with
    | comparison c =>
      rw [polishFrom_comparison] at h
      obtain ⟨back, hback, rfl⟩ := emit_ok h
      exact congrArg (c :: ·) (ih hback)
    | opening | not => exact ih h
    | and =>
      rw [polishFrom_and rfl] at h
      obtain ⟨back, hback, rfl⟩ := emit_ok h
      rw [List.filterMap_append, (takes_popAnds stack).comparisons_eq]
      exact ih hback
    | or =>
      rw [polishFrom_or rfl] at h
      obtain ⟨back, hback, rfl⟩ := emit_ok h
      rw [List.filterMap_append, (takes_popJunctions stack).comparisons_eq]
      exact ih hback
    | closing =>
      cases hgroup : popGroup stack with
      | error fault =>
        rw [polishFrom, hgroup] at h
        cases h
      | ok popped =>
        rw [polishFrom_closing hgroup (Prod.eta _).symm] at h
        obtain ⟨back, hback, rfl⟩ := emit_ok h
        rw [List.filterMap_append, List.filterMap_append, (takes_popGroup hgroup).comparisons_eq,
          (takes_popNegation popped.2).comparisons_eq]
        exact ih hback

/-! ## Counting -/

theorem comparisons_map_token (steps : List Step) :
    comparisons (steps.map Step.token) = steps.filterMap Step.comparison? := by
  rw [comparisons, List.filterMap_map]
  apply congrArg (List.filterMap · steps)
  funext step
  cases step <;> rfl

/-- The tokens that have a step are all but the parentheses. -/
theorem map_token_inOrder (tokens : List Token) :
    (inOrder tokens).map Step.token = tokens.filter fun token => token.step?.isSome := by
  induction tokens with
  | nil => rfl
  | cons first rest ih =>
    cases first with
    | comparison _ | and | or | not => exact congrArg (_ :: ·) ih
    | opening | closing => exact ih

/-- The order holds no parenthesis, every other token as often as the tokens do, and the comparisons
as they follow each other. -/
structure Reorders (tokens ordered : List Token) : Prop where
  opening_not_mem : .opening ∉ ordered
  closing_not_mem : .closing ∉ ordered
  count_eq (token : Token) :
    token ≠ .opening → token ≠ .closing → ordered.count token = tokens.count token
  comparisons_eq : comparisons ordered = comparisons tokens

theorem reorders_of_polish {tokens : List Token} {steps : List Step}
    (h : polish tokens = .ok steps) : Reorders tokens (steps.map Step.token) where
  opening_not_mem := by
    intro hmem
    obtain ⟨step, -, hstep⟩ := List.mem_map.1 hmem
    exact step.token_ne_parenthesis.1 hstep
  closing_not_mem := by
    intro hmem
    obtain ⟨step, -, hstep⟩ := List.mem_map.1 hmem
    exact step.token_ne_parenthesis.2 hstep
  count_eq token hopening hclosing := by
    have hperm := (polishFrom_ok h).1
    have hstep : token.step?.isSome = true := by
      cases token with
      | comparison _ | and | or | not => rfl
      | opening => exact absurd rfl hopening
      | closing => exact absurd rfl hclosing
    rw [stepsOf_nil, List.append_nil] at hperm
    rw [(hperm.map Step.token).count_eq, map_token_inOrder]
    exact List.count_filter hstep
  comparisons_eq := by rw [comparisons_map_token, comparisons_of_polishFrom h]

theorem token_injective : Function.Injective Step.token := by
  intro first second h
  cases first <;> cases second <;> cases h <;> rfl

/-- A connective is a step as often as it is a token. -/
theorem count_steps {tokens : List Token} {steps : List Step} (h : polish tokens = .ok steps)
    (step : Step) : steps.count step = tokens.count step.token := by
  have hcount := (reorders_of_polish h).count_eq step.token step.token_ne_parenthesis.1
    step.token_ne_parenthesis.2
  rwa [List.count_map_of_injective _ _ token_injective] at hcount

/-- The tree has the comparisons of the tokens as its leaves from left to right, a junction of two
members for every connective between operands, and a negation for every NOT and every `!=`. -/
structure BuiltFrom (tokens : List Token) (tree : Criteria) : Prop where
  leaves_eq : tree.leaves = (comparisons tokens).map Comparison.leaf
  two_members {operator : Junction} {members : Nat} :
    .junction operator members ∈ tree.postorder → members = 2
  conjunctions : tree.postorder.count (.junction .all 2) = tokens.count .and
  disjunctions : tree.postorder.count (.junction .any 2) = tokens.count .or
  negations :
    tree.postorder.count .negation = tokens.count .not + negatedCount (comparisons tokens)

theorem builtFrom_of_criterionOf {text : String} {tokens : List Token} {tree : Criteria}
    (h : criterionOf text tokens = .ok tree) : BuiltFrom tokens tree := by
  obtain ⟨steps, hpolish, hsteps⟩ := criterionOf_ok h
  have hnodes := postorder_of_evaluate hsteps
  have hcomparisons := comparisons_of_polishFrom hpolish
  constructor
  · rw [Criteria.leaves_eq_filterMap, hnodes, leaves_of_steps, hcomparisons]
  · intro operator members hmem
    rw [hnodes] at hmem
    obtain ⟨step, -, hstep⟩ := List.mem_flatMap.1 hmem
    exact junction_mem_nodes hstep
  · rw [hnodes, count_junction_of_steps]
    exact count_steps hpolish .and
  · rw [hnodes, count_junction_of_steps]
    exact count_steps hpolish .or
  · rw [hnodes, count_negation_of_steps, hcomparisons]
    exact congrArg (· + _) (count_steps hpolish .not)

/-- Reading a condition loses no token and invents none. -/
structure KeepsTokens : Prop where
  /-- Token by token the order is the one that steps are in. -/
  order_eq (tokens : List Token) :
    Shunting.order tokens = (polish tokens).map (List.map Step.token)
  /-- There is an order exactly if the parentheses are balanced. -/
  ordered_iff (tokens : List Token) :
    (∃ ordered, Shunting.order tokens = .ok ordered) ↔ Matched tokens
  reorders {tokens ordered : List Token} :
    Shunting.order tokens = .ok ordered → Reorders tokens ordered
  /-- A text is read as without parentheses in its order, and none is evaluated. -/
  no_parenthesis (text : List Char) :
    Shunting.parseCondition text = Shunting.lift (parseCondition text) ∧
      Shunting.parseCondition text ≠ .error .parenthesis
  builtFrom {text : List Char} {tree : Criteria} : parseCondition text = .ok tree →
    ∃ tokens, tokenize text = .ok tokens ∧ BuiltFrom tokens tree

/-- Whatever the tokens are, well-formed or not, none but the parentheses go. -/
theorem conditions_keep_tokens : KeepsTokens where
  order_eq := Shunting.order_eq
  ordered_iff tokens := by
    rw [matched_iff, Shunting.order_eq]
    constructor
    · rintro ⟨ordered, h⟩
      obtain ⟨steps, hsteps, -⟩ := Action.map_eq_ok_iff.1 h
      exact (polishFrom_ok hsteps).2
    · intro h
      obtain ⟨steps, hsteps⟩ : ∃ steps, polish tokens = .ok steps := exists_polishFrom h
      exact ⟨_, Action.map_eq_ok_iff.2 ⟨steps, hsteps, rfl⟩⟩
  reorders := by
    intro tokens ordered h
    rw [Shunting.order_eq] at h
    obtain ⟨steps, hsteps, rfl⟩ := Action.map_eq_ok_iff.1 h
    exact reorders_of_polish hsteps
  no_parenthesis text := by
    refine ⟨Shunting.parseCondition_eq text, ?_⟩
    rw [Shunting.parseCondition_eq]
    cases parseCondition text <;> nofun
  builtFrom := by
    intro text tree h
    obtain ⟨tokens, htokens, hcriterion⟩ := Action.bind_eq_ok_iff.1 h
    exact ⟨tokens, htokens, builtFrom_of_criterionOf hcriterion⟩

/-- Operands and connectives that stand anywhere come out in some order. -/
example : Shunting.order [.and, .closing, .opening] = .error .unexpectedClose ∧
    Shunting.order [.not, .opening, equalTo "a" "1", .and, .or, .closing, equalTo "b" "2"] =
      .ok [equalTo "a" "1", .and, .or, .not, equalTo "b" "2"] := by
  decide

end ArchiveCatalog.Dsl
