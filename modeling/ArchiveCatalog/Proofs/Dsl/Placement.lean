import ArchiveCatalog.Proofs.Dsl.Grammar
import Mathlib.Data.List.Chain

namespace ArchiveCatalog.Dsl

/-! # Where tokens may stand

A condition is read without a look at where its tokens stand: operators move behind their
operands, and all that counts at the end is whether one criterion is left. So a text that is
read has as many comparisons as its connectives need and every parenthesis has its partner, but
two operands may stand side by side, as in `a = '1' b = '2' AND`.

That is the only slip. Where no operand begins right behind the end of another one, the numbers
alone force operands and connectives to take turns (`placed_of_counts`), and tokens that take
turns form an expression (`Placed.derives`).
-/

/-! ## Operands side by side -/

/-- The token begins an operand. -/
def Token.beginsOperand : Token → Bool
  | .comparison _ | .opening | .not => true
  | .closing | .and | .or => false

/-- The token ends an operand. -/
def Token.endsOperand : Token → Bool
  | .comparison _ | .closing => true
  | .opening | .and | .or | .not => false

/-- No operand begins right behind the end of another one. -/
def OperandsApart (tokens : List Token) : Prop :=
  tokens.IsChain fun first second => first.endsOperand = true → second.beginsOperand = false

instance (tokens : List Token) : Decidable (OperandsApart tokens) :=
  inferInstanceAs (Decidable (tokens.IsChain _))

theorem OperandsApart.cons {token : Token} {rest : List Token} (hrest : OperandsApart rest)
    (hhead : token.endsOperand = true → ∀ next ∈ rest.head?, next.beginsOperand = false) :
    OperandsApart (token :: rest) :=
  List.isChain_cons.2 ⟨fun next hnext hends => hhead hends next hnext, hrest⟩

theorem OperandsApart.tail {token : Token} {rest : List Token}
    (h : OperandsApart (token :: rest)) : OperandsApart rest :=
  (List.isChain_cons.1 h).2

theorem OperandsApart.head {token : Token} {rest : List Token}
    (h : OperandsApart (token :: rest)) (hends : token.endsOperand = true) :
    ∀ next ∈ rest.head?, next.beginsOperand = false :=
  fun next hnext => (List.isChain_cons.1 h).1 next hnext hends

/-! ## Taking turns -/

/-- Operands and connectives take turns: an operand comes next if one is expected and a
connective or an end otherwise, with so many parenthesis to close. -/
inductive Placed : Bool → Nat → List Token → Prop
  | done : Placed false 0 []
  | comparison (c : Comparison) {depth : Nat} {rest : List Token} :
      Placed false depth rest → Placed true depth (.comparison c :: rest)
  | opening {depth : Nat} {rest : List Token} :
      Placed true (depth + 1) rest → Placed true depth (.opening :: rest)
  | not {depth : Nat} {rest : List Token} :
      Placed true depth rest → Placed true depth (.not :: rest)
  | closing {depth : Nat} {rest : List Token} :
      Placed false depth rest → Placed false (depth + 1) (.closing :: rest)
  | and {depth : Nat} {rest : List Token} :
      Placed true depth rest → Placed false depth (.and :: rest)
  | or {depth : Nat} {rest : List Token} :
      Placed true depth rest → Placed false depth (.or :: rest)

namespace Placed

variable {expecting : Bool} {depth : Nat} {tokens : List Token}

theorem head (h : Placed false depth tokens) :
    ∀ next ∈ tokens.head?, next.beginsOperand = false := by
  cases h with
  | done => simp
  | closing | and | or => rintro next ⟨⟩; rfl

theorem apart (h : Placed expecting depth tokens) : OperandsApart tokens := by
  induction h with
  | done => exact List.isChain_nil
  | comparison c hrest ih => exact ih.cons fun _ => hrest.head
  | closing hrest ih => exact ih.cons fun _ => hrest.head
  | opening _ ih | not _ ih | and _ ih | or _ ih => exact ih.cons fun hends => nomatch hends

end Placed

/-- The tokens of a derivation take turns. -/
theorem Derives.placed {part : Part} {last : Bool} {tokens : List Token} {tree : Criteria}
    (h : Derives part last tokens tree) {depth : Nat} {rest : List Token}
    (hrest : Placed false depth rest) : Placed true depth (tokens ++ rest) := by
  induction h generalizing depth rest with
  | comparison last c => exact .comparison c hrest
  | group last _ ih =>
    rw [List.cons_append, List.append_assoc]
    exact .opening (ih hrest.closing)
  | negatedGroup last _ ih =>
    rw [List.cons_append, List.cons_append, List.append_assoc]
    exact .not (.opening (ih hrest.closing))
  | negation _ _ ih => exact .not (ih hrest)
  | ofOperand _ ih => exact ih hrest
  | and _ _ ihfront ihback =>
    rw [List.append_assoc]
    exact ihfront (.and (ihback hrest))
  | ofChain _ ih => exact ih hrest
  | or _ _ ihfront ihback =>
    rw [List.append_assoc]
    exact ihfront (.or (ihback hrest))

theorem Derives.apart {tokens : List Token} {tree : Criteria}
    (h : Derives .expression true tokens tree) : OperandsApart tokens := by
  have hplaced := h.placed .done
  rw [List.append_nil] at hplaced
  exact hplaced.apart

/-! ## Tokens that take turns form an expression -/

/-- The tokens form the part. -/
def Derivable (part : Part) (last : Bool) (tokens : List Token) : Prop :=
  ∃ tree, Derives part last tokens tree

namespace Derivable

variable {last : Bool} {operand tokens : List Token}

theorem ofOperand (h : Derivable .operand last tokens) : Derivable .expression last tokens := by
  obtain ⟨tree, h⟩ := h
  exact ⟨tree, .ofChain (.ofOperand h)⟩

/-- An operand and an AND in front of an expression belong to its first chain. -/
theorem operand_and (hoperand : Derivable .operand false operand)
    (h : Derivable .expression last tokens) :
    Derivable .expression last (operand ++ .and :: tokens) := by
  obtain ⟨first, hoperand⟩ := hoperand
  have hchain : ∀ {last tokens tree}, Derives .chain last tokens tree →
      Derivable .chain last (operand ++ .and :: tokens) := by
    intro last tokens tree h
    generalize hpart : Part.chain = part at h
    induction h with
    | ofOperand h => exact ⟨_, .and (.ofOperand hoperand) h⟩
    | and _ hback ih =>
      obtain ⟨tree, hfront⟩ := ih rfl
      have hall := Derives.and hfront hback
      rw [List.append_assoc, List.cons_append] at hall
      exact ⟨_, hall⟩
    | _ => cases hpart
  obtain ⟨tree, h⟩ := h
  generalize hpart : Part.expression = part at h
  induction h with
  | ofChain h =>
    obtain ⟨tree, h⟩ := hchain h
    exact ⟨tree, .ofChain h⟩
  | or _ hback ih =>
    obtain ⟨tree, hfront⟩ := ih rfl
    have hall := Derives.or hfront hback
    rw [List.append_assoc, List.cons_append] at hall
    exact ⟨_, hall⟩
  | _ => cases hpart

/-- An operand and an OR in front of an expression are one more chain. -/
theorem operand_or (hoperand : Derivable .operand false operand)
    (h : Derivable .expression last tokens) :
    Derivable .expression last (operand ++ .or :: tokens) := by
  obtain ⟨first, hoperand⟩ := hoperand
  obtain ⟨tree, h⟩ := h
  generalize hpart : Part.expression = part at h
  induction h with
  | ofChain h => exact ⟨_, .or (.ofChain (.ofOperand hoperand)) h⟩
  | or _ hback ih =>
    obtain ⟨tree, hfront⟩ := ih rfl
    have hall := Derives.or hfront hback
    rw [List.append_assoc, List.cons_append] at hall
    exact ⟨_, hall⟩
  | _ => cases hpart

end Derivable

/-- What follows an expression: the end of all tokens, or the parenthesis that closes its group,
with tokens behind it that take turns. -/
inductive Ends : Nat → List Token → Prop
  | all : Ends 0 []
  | group {depth : Nat} {rest : List Token} : Placed false depth rest →
      Ends (depth + 1) (.closing :: rest)

/-- The tokens begin with an expression that reaches to the end of its group. -/
def BeginsExpression (depth : Nat) (tokens : List Token) : Prop :=
  ∃ body rest, tokens = body ++ rest ∧ Derivable .expression true body ∧ Ends depth rest

namespace Placed

variable {depth : Nat}

/-- An operand is followed by the end of its group, or by a connective with one more expression,
which goes with it. -/
theorem beginsExpression_of_operand {operand rest : List Token}
    (hoperand : ∀ last, Derivable .operand last operand) (h : Placed false depth rest)
    (hbehind : ∀ {tokens}, tokens.length < rest.length → Placed true depth tokens →
      BeginsExpression depth tokens) : BeginsExpression depth (operand ++ rest) := by
  cases h with
  | done => exact ⟨operand, [], rfl, (hoperand true).ofOperand, .all⟩
  | closing hrest => exact ⟨operand, _, rfl, (hoperand true).ofOperand, .group hrest⟩
  | and hrest =>
    obtain ⟨body, rest, rfl, hbody, hends⟩ := hbehind (Nat.lt_succ_self _) hrest
    exact ⟨operand ++ .and :: body, rest, by simp, (hoperand false).operand_and hbody, hends⟩
  | or hrest =>
    obtain ⟨body, rest, rfl, hbody, hends⟩ := hbehind (Nat.lt_succ_self _) hrest
    exact ⟨operand ++ .or :: body, rest, by simp, (hoperand false).operand_or hbody, hends⟩

/-- Where an operand is expected, tokens that take turns begin with an expression. A group is
read before what follows it, so the induction is on the number of tokens. -/
theorem beginsExpression {tokens : List Token} (h : Placed true depth tokens) :
    BeginsExpression depth tokens := by
  induction hlength : tokens.length using Nat.strong_induction_on generalizing depth tokens with
  | _ n ih =>
  subst hlength
  have hshorter : ∀ {depth rest}, rest.length < tokens.length → Placed true depth rest →
      BeginsExpression depth rest := fun hlt hrest => ih _ hlt hrest rfl
  have hgroup : ∀ {depth rest}, rest.length < tokens.length → Placed true (depth + 1) rest →
      ∃ body tree rest', rest = body ++ .closing :: rest' ∧ Derives .expression true body tree ∧
        Placed false depth rest' := by
    intro depth rest hlt hrest
    obtain ⟨body, rest', rfl, ⟨tree, hbody⟩, hends⟩ := hshorter hlt hrest
    cases hends with
    | group hrest' => exact ⟨body, tree, _, rfl, hbody, hrest'⟩
  cases h with
  | comparison c hrest =>
    have hoperand : ∀ last, Derivable .operand last [.comparison c] :=
      fun last => ⟨_, .comparison last c⟩
    exact beginsExpression_of_operand hoperand hrest fun hlt => hshorter (Nat.lt_succ_of_lt hlt)
  | opening hrest =>
    obtain ⟨body, tree, rest', rfl, hbody, hrest'⟩ := hgroup (Nat.lt_succ_self _) hrest
    have hall := beginsExpression_of_operand (fun last => ⟨tree, .group last hbody⟩) hrest' ?_
    · simpa using hall
    · intro tokens hlt
      exact hshorter (by simp only [List.length_cons, List.length_append]; omega)
  | @not depth rest hrest =>
    by_cases hopening : rest.head? = some .opening
    · obtain ⟨inner, rfl⟩ := List.head?_eq_some_iff.1 hopening
      cases hrest with
      | opening hinner =>
        have hlt : inner.length < (Token.not :: Token.opening :: inner).length := by
          simp only [List.length_cons]
          omega
        obtain ⟨body, tree, rest', rfl, hbody, hrest'⟩ := hgroup hlt hinner
        have hall := beginsExpression_of_operand
          (fun last => ⟨_, .negatedGroup last hbody⟩) hrest' ?_
        · simpa using hall
        · intro tokens hlt
          exact hshorter (by simp only [List.length_cons, List.length_append]; omega)
    · obtain ⟨body, rest', rfl, ⟨tree, hbody⟩, hends⟩ := hshorter (Nat.lt_succ_self _) hrest
      have hhead : body.head? ≠ some .opening := by
        intro hbodyhead
        obtain ⟨inner, rfl⟩ := List.head?_eq_some_iff.1 hbodyhead
        exact hopening rfl
      exact ⟨.not :: body, rest', rfl, .ofOperand ⟨_, .negation hhead hbody⟩, hends⟩

/-- Tokens that take turns from the first to the last form an expression. -/
theorem derives {tokens : List Token} (h : Placed true 0 tokens) :
    ∃ tree, Derives .expression true tokens tree := by
  obtain ⟨body, rest, rfl, hbody, hends⟩ := h.beginsExpression
  cases hends
  rwa [List.append_nil]

end Placed

/-! ## The steps of the tokens -/

/-- The step of a token; parentheses have none. -/
def Token.step? : Token → Option Step
  | .comparison c => some (.operand c)
  | .and => some .and
  | .or => some .or
  | .not => some .not
  | .opening | .closing => none

/-- The steps of tokens in the order of the tokens. -/
def inOrder (tokens : List Token) : List Step := tokens.filterMap Token.step?

/-- Every parenthesis has its partner, with so many to close. -/
def BalancedFrom : Nat → List Token → Prop
  | depth, [] => depth = 0
  | depth, .opening :: rest => BalancedFrom (depth + 1) rest
  | 0, .closing :: _ => False
  | depth + 1, .closing :: rest => BalancedFrom depth rest
  | depth, .and :: rest | depth, .or :: rest | depth, .not :: rest
  | depth, .comparison _ :: rest => BalancedFrom depth rest

/-- The parentheses that are open on the stack. -/
def openings (stack : List Pending) : Nat := stack.count .opening

/-- What comes off the stack as steps are the operators that waited on top. -/
structure Takes (stack : List Pending) (steps : List Step) (rest : List Pending) : Prop where
  stepsOf_eq : stepsOf stack = steps ++ stepsOf rest
  openings_eq : openings stack = openings rest

namespace Takes

theorem nothing (stack : List Pending) : Takes stack [] stack := ⟨rfl, rfl⟩

theorem operator {p : Pending} {step : Step} (hstep : p.step? = some step)
    {stack rest : List Pending} {steps : List Step} (h : Takes stack steps rest) :
    Takes (p :: stack) (step :: steps) rest where
  stepsOf_eq := by
    rw [stepsOf, List.filterMap_cons_some hstep, ← stepsOf, h.stepsOf_eq]
    rfl
  openings_eq := by
    have hne : p ≠ .opening := by
      rintro rfl
      cases hstep
    rw [openings, List.count_cons_of_ne hne]
    exact h.openings_eq

end Takes

theorem takes_popAnds (stack : List Pending) :
    Takes stack (popAnds stack).1 (popAnds stack).2 := by
  induction stack with
  | nil => exact .nothing []
  | cons p stack ih =>
    cases p with
    | and => exact ih.operator rfl
    | opening | or | not => exact .nothing _

theorem takes_popJunctions (stack : List Pending) :
    Takes stack (popJunctions stack).1 (popJunctions stack).2 := by
  induction stack with
  | nil => exact .nothing []
  | cons p stack ih =>
    cases p with
    | and | or => exact ih.operator rfl
    | opening | not => exact .nothing _

theorem takes_popNegation (stack : List Pending) :
    Takes stack (popNegation stack).1 (popNegation stack).2 := by
  cases stack with
  | nil => exact .nothing []
  | cons p stack =>
    cases p with
    | not => exact (Takes.nothing stack).operator rfl
    | opening | and | or => exact .nothing _

theorem takes_popGroup {stack rest : List Pending} {steps : List Step}
    (h : popGroup stack = .ok (steps, rest)) : Takes stack steps (.opening :: rest) := by
  induction stack generalizing steps with
  | nil => cases h
  | cons p stack ih =>
    cases p with
    | opening =>
      cases h
      exact .nothing _
    | and | or | not =>
      rw [popGroup] at h
      cases hpop : popGroup stack with
      | error fault =>
        rw [hpop] at h
        cases h
      | ok popped =>
        rw [hpop] at h
        cases h
        exact (ih hpop).operator rfl

theorem takes_popAll {stack : List Pending} {steps : List Step} (h : popAll stack = .ok steps) :
    Takes stack steps [] := by
  induction stack generalizing steps with
  | nil =>
    cases h
    exact .nothing []
  | cons p stack ih =>
    cases p with
    | opening => cases h
    | and | or | not =>
      rw [popAll] at h
      cases hpop : popAll stack with
      | error fault =>
        rw [hpop] at h
        cases h
      | ok popped =>
        rw [hpop] at h
        cases h
        exact (ih hpop).operator rfl

theorem emit_ok {α : Type} {front all : List α} {rest : Except QueryFault (List α)}
    (h : emit front rest = .ok all) : ∃ back, rest = .ok back ∧ all = front ++ back := by
  cases rest with
  | error fault => cases h
  | ok back =>
    cases h
    exact ⟨back, rfl, rfl⟩

/-- Steps that come off the stack go in front of those of the tokens that are left. -/
theorem perm_taken {back items others : List Step} (h : back.Perm (items ++ others))
    (taken : List Step) : (taken ++ back).Perm (items ++ (taken ++ others)) :=
  (h.append_left taken).trans (List.perm_append_comm_assoc taken items others)

/-- A connective waits below what came off the stack before it. -/
theorem perm_connective {connective : Step} {back items others : List Step}
    (h : back.Perm (items ++ connective :: others)) (taken : List Step) :
    (taken ++ back).Perm (connective :: (items ++ (taken ++ others))) :=
  (perm_taken h taken).trans ((List.perm_middle.append_left items).trans List.perm_middle)

/-- The steps of a condition are those of its tokens in another order, and its parentheses are
balanced. -/
theorem polishFrom_ok {stack : List Pending} {tokens : List Token} {steps : List Step}
    (h : polishFrom stack tokens = .ok steps) :
    steps.Perm (inOrder tokens ++ stepsOf stack) ∧ BalancedFrom (openings stack) tokens := by
  induction tokens generalizing stack steps with
  | nil =>
    have htakes := takes_popAll h
    have hsteps := htakes.stepsOf_eq
    rw [stepsOf_nil, List.append_nil] at hsteps
    rw [hsteps]
    exact ⟨.refl _, htakes.openings_eq⟩
  | cons token rest ih =>
    cases token with
    | comparison c =>
      rw [polishFrom_comparison] at h
      obtain ⟨back, hback, rfl⟩ := emit_ok h
      obtain ⟨hperm, hbalanced⟩ := ih hback
      exact ⟨hperm.cons _, hbalanced⟩
    | opening =>
      obtain ⟨hperm, hbalanced⟩ := ih h
      rw [openings, List.count_cons_self] at hbalanced
      exact ⟨hperm, hbalanced⟩
    | not =>
      obtain ⟨hperm, hbalanced⟩ := ih h
      exact ⟨hperm.trans List.perm_middle, hbalanced⟩
    | and =>
      rw [polishFrom_and rfl] at h
      obtain ⟨back, hback, rfl⟩ := emit_ok h
      obtain ⟨hperm, hbalanced⟩ := ih hback
      have htakes := takes_popAnds stack
      refine ⟨?_, htakes.openings_eq ▸ hbalanced⟩
      rw [htakes.stepsOf_eq]
      exact perm_connective hperm _
    | or =>
      rw [polishFrom_or rfl] at h
      obtain ⟨back, hback, rfl⟩ := emit_ok h
      obtain ⟨hperm, hbalanced⟩ := ih hback
      have htakes := takes_popJunctions stack
      refine ⟨?_, htakes.openings_eq ▸ hbalanced⟩
      rw [htakes.stepsOf_eq]
      exact perm_connective hperm _
    | closing =>
      cases hgroup : popGroup stack with
      | error fault =>
        rw [polishFrom, hgroup] at h
        cases h
      | ok popped =>
        rw [polishFrom_closing hgroup rfl] at h
        obtain ⟨back, hback, rfl⟩ := emit_ok h
        obtain ⟨hperm, hbalanced⟩ := ih hback
        have htakes := takes_popGroup hgroup
        have hnot := takes_popNegation popped.2
        have hsteps : stepsOf stack = popped.1 ++ stepsOf popped.2 := htakes.stepsOf_eq
        have hopen : openings stack = openings popped.2 + 1 :=
          htakes.openings_eq.trans List.count_cons_self
        refine ⟨?_, ?_⟩
        · rw [hsteps, hnot.stepsOf_eq, ← List.append_assoc popped.1]
          exact perm_taken hperm _
        · rw [hopen, hnot.openings_eq]
          exact hbalanced

/-! ## Counting operands -/

/-- The step puts an operand on the stack. -/
def Step.isOperand : Step → Bool
  | .operand _ => true
  | .and | .or | .not => false

/-- The step takes two operands and leaves one. -/
def Step.isJunction : Step → Bool
  | .and | .or => true
  | .operand _ | .not => false

theorem apply_length {step : Step} {operands result : List Criteria}
    (h : step.apply operands = .ok result) :
    result.length + [step].countP Step.isJunction =
      operands.length + [step].countP Step.isOperand := by
  cases step with
  | operand c =>
    cases h
    rfl
  | and | or =>
    rcases operands with _ | ⟨second, _ | ⟨first, rest⟩⟩
    · cases h
    · cases h
    · cases h
      rfl
  | not =>
    rcases operands with _ | ⟨member, rest⟩
    · cases h
    · cases h
      rfl

/-- Every comparison adds an operand, every connective makes one of two. -/
theorem evaluate_length {steps : List Step} {operands result : List Criteria}
    (h : evaluate operands steps = .ok result) :
    result.length + steps.countP Step.isJunction =
      operands.length + steps.countP Step.isOperand := by
  induction steps generalizing operands with
  | nil =>
    cases h
    rfl
  | cons step rest ih =>
    cases happly : step.apply operands with
    | error fault =>
      rw [evaluate, happly] at h
      cases h
    | ok applied =>
      rw [evaluate, happly] at h
      have hstep := apply_length happly
      have hrest := ih h
      rw [← List.singleton_append, List.countP_append, List.countP_append]
      omega

/-- The operands among the steps of the tokens. -/
def operandCount (tokens : List Token) : Nat := (inOrder tokens).countP Step.isOperand

/-- The connectives between two operands among the steps of the tokens. -/
def junctionCount (tokens : List Token) : Nat := (inOrder tokens).countP Step.isJunction

theorem operandCount_comparison (c : Comparison) (rest : List Token) :
    operandCount (.comparison c :: rest) = operandCount rest + 1 :=
  List.countP_cons_of_pos rfl

theorem junctionCount_and (rest : List Token) :
    junctionCount (.and :: rest) = junctionCount rest + 1 :=
  List.countP_cons_of_pos rfl

theorem junctionCount_or (rest : List Token) :
    junctionCount (.or :: rest) = junctionCount rest + 1 :=
  List.countP_cons_of_pos rfl

/-- Where operands are apart, there is at most one comparison more than there are connectives,
and as many only if an operand is expected. Where the comparisons are as many as they can be, the
tokens take turns. -/
theorem placed_of_counts {tokens : List Token} (hapart : OperandsApart tokens)
    (expecting : Bool) (hhead : expecting = false → ∀ next ∈ tokens.head?,
      next.beginsOperand = false) {depth : Nat} (hbalanced : BalancedFrom depth tokens) :
    operandCount tokens ≤ junctionCount tokens + expecting.toNat ∧
      (operandCount tokens = junctionCount tokens + expecting.toNat →
        Placed expecting depth tokens) := by
  induction tokens generalizing expecting depth with
  | nil =>
    cases hbalanced
    cases expecting with
    | false => exact ⟨le_rfl, fun _ => .done⟩
    | true => exact ⟨Nat.zero_le _, fun h => nomatch h⟩
  | cons token rest ih =>
    -- A token that begins an operand stands only where one is expected.
    have hexpecting : token.beginsOperand = true → expecting = true := by
      intro hbegins
      by_contra hexpecting
      have hno := hhead (Bool.eq_false_iff.2 hexpecting) token rfl
      rw [hbegins] at hno
      cases hno
    have hbehind : ∀ {depth}, token.endsOperand = true → BalancedFrom depth rest →
        operandCount rest ≤ junctionCount rest ∧
          (operandCount rest = junctionCount rest → Placed false depth rest) :=
      fun hends => ih hapart.tail false fun _ => hapart.head hends
    have hinside : ∀ {depth}, BalancedFrom depth rest →
        operandCount rest ≤ junctionCount rest + 1 ∧
          (operandCount rest = junctionCount rest + 1 → Placed true depth rest) :=
      ih hapart.tail true nofun
    cases token with
    | comparison c =>
      obtain rfl := hexpecting rfl
      obtain ⟨hle, hplaced⟩ := hbehind rfl hbalanced
      rw [operandCount_comparison]
      exact ⟨Nat.succ_le_succ hle, fun h => .comparison c (hplaced (Nat.succ.inj h))⟩
    | opening =>
      obtain rfl := hexpecting rfl
      obtain ⟨hle, hplaced⟩ := hinside hbalanced
      exact ⟨hle, fun h => .opening (hplaced h)⟩
    | not =>
      obtain rfl := hexpecting rfl
      obtain ⟨hle, hplaced⟩ := hinside hbalanced
      exact ⟨hle, fun h => .not (hplaced h)⟩
    | closing =>
      cases depth with
      | zero => cases hbalanced
      | succ depth =>
        obtain ⟨hle, hplaced⟩ := hbehind rfl hbalanced
        cases expecting with
        | false => exact ⟨hle, fun h => .closing (hplaced h)⟩
        | true =>
          have hlt := Nat.lt_succ_of_le hle
          exact ⟨hlt.le, fun h => absurd h hlt.ne⟩
    | and =>
      obtain ⟨hle, hplaced⟩ := hinside hbalanced
      rw [junctionCount_and]
      cases expecting with
      | false => exact ⟨hle, fun h => .and (hplaced h)⟩
      | true =>
        have hlt := Nat.lt_succ_of_le hle
        exact ⟨hlt.le, fun h => absurd h hlt.ne⟩
    | or =>
      obtain ⟨hle, hplaced⟩ := hinside hbalanced
      rw [junctionCount_or]
      cases expecting with
      | false => exact ⟨hle, fun h => .or (hplaced h)⟩
      | true =>
        have hlt := Nat.lt_succ_of_le hle
        exact ⟨hlt.le, fun h => absurd h hlt.ne⟩

/-! ## What the parser accepts -/

variable {tokens : List Token} {tree : Criteria} {text : String}

theorem criterionOf_ok (h : criterionOf text tokens = .ok tree) :
    ∃ steps, polish tokens = .ok steps ∧ evaluate [] steps = .ok [tree] := by
  rw [criterionOf] at h
  cases hpolish : polish tokens with
  | error fault =>
    rw [hpolish] at h
    cases h
  | ok steps =>
    refine ⟨steps, rfl, ?_⟩
    rw [hpolish] at h
    simp only [bind, Except.bind] at h
    split at h
    · cases h
    · cases hsteps : evaluate [] steps with
      | error fault =>
        rw [hsteps] at h
        cases h
      | ok result =>
        rw [hsteps] at h
        rcases result with _ | ⟨first, _ | ⟨second, more⟩⟩ <;> cases h
        rfl

/-- Tokens that are read as one criterion have one comparison more than connectives, and their
parentheses are balanced. -/
theorem counts_of_criterionOf (h : criterionOf text tokens = .ok tree) :
    operandCount tokens = junctionCount tokens + 1 ∧ BalancedFrom 0 tokens := by
  obtain ⟨steps, hpolish, hsteps⟩ := criterionOf_ok h
  obtain ⟨hperm, hbalanced⟩ := polishFrom_ok hpolish
  rw [stepsOf_nil, List.append_nil] at hperm
  have hlength := evaluate_length hsteps
  rw [hperm.countP_eq, hperm.countP_eq] at hlength
  simp only [List.length_cons, List.length_nil] at hlength
  refine ⟨?_, hbalanced⟩
  rw [operandCount, junctionCount]
  omega

/-- A criterion of tokens in which no two operands stand side by side is the tree of a
derivation. -/
theorem derives_of_criterionOf (h : criterionOf text tokens = .ok tree)
    (hapart : OperandsApart tokens) : Derives .expression true tokens tree := by
  obtain ⟨hcounts, hbalanced⟩ := counts_of_criterionOf h
  have hplaced := (placed_of_counts hapart true nofun hbalanced).2 hcounts
  obtain ⟨derived, hderives⟩ := hplaced.derives
  obtain ⟨steps, hpolish, hsteps⟩ := hderives.exists_polish
  have hsame := criterionOf_of_polish hpolish hsteps text
  rw [h] at hsame
  cases hsame
  exact hderives

theorem parseCondition_of_tokenize {text : List Char} (htokens : tokenize text = .ok tokens) :
    parseCondition text = criterionOf (String.ofList text) tokens := by
  rw [parseCondition, htokens]
  rfl

/-- The tokens of a text that is read as a criterion derive this criterion unless two operands
stand side by side, and a text is rejected, always as a malformed query, only if its tokens derive
nothing. -/
theorem parseCondition_sound_where_apart (text : List Char) :
    (∀ tree, parseCondition text = .ok tree → ∃ tokens, tokenize text = .ok tokens ∧
      (OperandsApart tokens ↔ Derives .expression true tokens tree)) ∧
    ∀ fault, parseCondition text = .error fault →
      (CatalogError.query fault).kind = .queryFormulation ∧
      ∀ tokens tree, tokenize text = .ok tokens → ¬ Derives .expression true tokens tree := by
  refine ⟨?_, ?_⟩
  · intro tree h
    cases htokens : tokenize text with
    | error fault =>
      rw [parseCondition, htokens] at h
      cases h
    | ok tokens =>
      rw [parseCondition_of_tokenize htokens] at h
      exact ⟨tokens, rfl, derives_of_criterionOf h, Derives.apart⟩
  · intro fault h
    refine ⟨rfl, ?_⟩
    intro tokens tree htokens hderives
    obtain ⟨steps, hpolish, hsteps⟩ := hderives.exists_polish
    rw [parseCondition_of_tokenize htokens, criterionOf_of_polish hpolish hsteps] at h
    cases h

/-- A group behind a NOT is read; two comparisons without a connective are not. -/
theorem parseCondition_sound_for_negated_group :
    (∃ tokens, tokenize "a == '1' AND NOT (b == '2' OR c == '3')".toList = .ok tokens ∧
      (OperandsApart tokens ↔ Derives .expression true tokens
        (.junction .all [.term "a" "1",
          .negation (.junction .any [.term "b" "2", .term "c" "3"])]))) ∧
    (CatalogError.query (.severalExpressions "a == '1' b == '2'")).kind = .queryFormulation ∧
    ∀ tokens tree, tokenize "a == '1' b == '2'".toList = .ok tokens →
      ¬ Derives .expression true tokens tree :=
  ⟨(parseCondition_sound_where_apart _).1 _ (by decide +kernel),
    (parseCondition_sound_where_apart _).2 _ (by decide +kernel)⟩

/-- An AND behind its operands is read as if it stood between them, though no derivation has its
tokens. -/
theorem parseCondition_reads_postfix :
    parseCondition "a == '1' b == '2' AND".toList =
        .ok (.junction .all [.term "a" "1", .term "b" "2"]) ∧
      tokenize "a == '1' b == '2' AND".toList = .ok [equalTo "a" "1", equalTo "b" "2", .and] ∧
      ∀ tree, ¬ Derives .expression true [equalTo "a" "1", equalTo "b" "2", .and] tree := by
  refine ⟨by decide +kernel, by decide +kernel, ?_⟩
  intro tree h
  have hapart : ¬ OperandsApart [equalTo "a" "1", equalTo "b" "2", .and] := by decide
  exact hapart h.apart

end ArchiveCatalog.Dsl
