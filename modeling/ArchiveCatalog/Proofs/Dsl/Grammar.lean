import ArchiveCatalog.Dsl.Condition
import ArchiveCatalog.Proofs.Dsl.Tokens

namespace ArchiveCatalog.Dsl

/-! # The grammar of conditions

An expression is a sequence of chains joined by OR, a chain a sequence of operands joined by AND.
`Derives` says which tokens form a part of a condition and which criterion they stand for.

Reverse Polish order follows the grammar. While a part is read, its steps come out up to some
operators that are left waiting on the stack, and steps and waiting operators together compute
the criterion of the part (`Reads`). A part that is closed leaves ANDs and ORs only, which a later
connective takes off again. A NOT without a parenthesis stays until the group around it ends.
-/

/-- The parts of a condition. -/
inductive Part
  | expression
  | chain
  | operand
  deriving DecidableEq, Repr

/-- The tokens form the part and stand for the criterion. In a part that is `last`, the last
operand ends its group, so that it may be a NOT without a parenthesis, which negates everything
up to there. -/
inductive Derives : Part → Bool → List Token → Criteria → Prop
  | comparison (last : Bool) (c : Comparison) :
      Derives .operand last [.comparison c] c.criteria
  | group (last : Bool) {tokens : List Token} {tree : Criteria} :
      Derives .expression true tokens tree →
      Derives .operand last (.opening :: (tokens ++ [.closing])) tree
  | negatedGroup (last : Bool) {tokens : List Token} {tree : Criteria} :
      Derives .expression true tokens tree →
      Derives .operand last (.not :: .opening :: (tokens ++ [.closing])) (.negation tree)
  | negation {tokens : List Token} {tree : Criteria} :
      tokens.head? ≠ some .opening → Derives .expression true tokens tree →
      Derives .operand true (.not :: tokens) (.negation tree)
  | ofOperand {last : Bool} {tokens : List Token} {tree : Criteria} :
      Derives .operand last tokens tree → Derives .chain last tokens tree
  | and {last : Bool} {front back : List Token} {first second : Criteria} :
      Derives .chain false front first → Derives .operand last back second →
      Derives .chain last (front ++ .and :: back) (.junction .all [first, second])
  | ofChain {last : Bool} {tokens : List Token} {tree : Criteria} :
      Derives .chain last tokens tree → Derives .expression last tokens tree
  | or {last : Bool} {front back : List Token} {first second : Criteria} :
      Derives .expression false front first → Derives .chain last back second →
      Derives .expression last (front ++ .or :: back) (.junction .any [first, second])

/-! ## The stack -/

/-- The steps of pending operators. -/
def stepsOf (waiting : List Pending) : List Step := waiting.filterMap Pending.step?

theorem stepsOf_nil : stepsOf [] = [] := rfl

theorem stepsOf_append (front back : List Pending) :
    stepsOf (front ++ back) = stepsOf front ++ stepsOf back :=
  List.filterMap_append

theorem popGroup_append {waiting : List Pending} (h : Pending.opening ∉ waiting)
    (stack : List Pending) :
    popGroup (waiting ++ .opening :: stack) = .ok (stepsOf waiting, stack) := by
  induction waiting with
  | nil => rfl
  | cons p rest ih =>
    have hrest := ih fun hmem => h (List.mem_cons_of_mem p hmem)
    cases p with
    | opening => exact absurd List.mem_cons_self h
    | and | or | not => rw [List.cons_append, popGroup, hrest]; rfl

theorem popAll_eq {waiting : List Pending} (h : Pending.opening ∉ waiting) :
    popAll waiting = .ok (stepsOf waiting) := by
  induction waiting with
  | nil => rfl
  | cons p rest ih =>
    have hrest := ih fun hmem => h (List.mem_cons_of_mem p hmem)
    cases p with
    | opening => exact absurd List.mem_cons_self h
    | and | or | not => rw [popAll, hrest]; rfl

theorem popAnds_append {waiting stack : List Pending} (h : ∀ p ∈ waiting, p = .and)
    (hstack : stack.head? ≠ some .and) : popAnds (waiting ++ stack) = (stepsOf waiting, stack) := by
  induction waiting with
  | nil =>
    cases stack with
    | nil => rfl
    | cons p rest =>
      cases p with
      | and => exact absurd rfl hstack
      | opening | or | not => rfl
  | cons p rest ih =>
    have hp := h p List.mem_cons_self
    subst hp
    rw [List.cons_append, popAnds, ih fun q hq => h q (List.mem_cons_of_mem _ hq)]
    rfl

theorem popJunctions_append {waiting stack : List Pending}
    (h : ∀ p ∈ waiting, p = .and ∨ p = .or) (hand : stack.head? ≠ some .and)
    (hor : stack.head? ≠ some .or) :
    popJunctions (waiting ++ stack) = (stepsOf waiting, stack) := by
  induction waiting with
  | nil =>
    cases stack with
    | nil => rfl
    | cons p rest =>
      cases p with
      | and => exact absurd rfl hand
      | or => exact absurd rfl hor
      | opening | not => rfl
  | cons p rest ih =>
    have hrest := ih fun q hq => h q (List.mem_cons_of_mem _ hq)
    rcases h p List.mem_cons_self with rfl | rfl
    · rw [List.cons_append, popJunctions, hrest]
      rfl
    · rw [List.cons_append, popJunctions, hrest]
      rfl

theorem popNegation_eq {stack : List Pending} (h : stack.head? ≠ some .not) :
    popNegation stack = ([], stack) := by
  cases stack with
  | nil => rfl
  | cons p rest =>
    cases p with
    | not => exact absurd rfl h
    | opening | and | or => rfl

theorem evaluate_append (operands : List Criteria) (front back : List Step) :
    evaluate operands (front ++ back) = evaluate operands front >>= (evaluate · back) := by
  induction front generalizing operands with
  | nil => rfl
  | cons step rest ih =>
    rw [List.cons_append, evaluate, evaluate]
    cases step.apply operands with
    | error fault => rfl
    | ok operands => exact ih operands

/-! ## Reading a token -/

variable {stack stack' : List Pending}

theorem polishFrom_comparison (stack : List Pending) (c : Comparison) (rest : List Token) :
    polishFrom stack (.comparison c :: rest) = emit [.operand c] (polishFrom stack rest) := by
  rw [polishFrom]
  cases polishFrom stack rest <;> rfl

theorem polishFrom_and {steps : List Step} (h : popAnds stack = (steps, stack'))
    (rest : List Token) :
    polishFrom stack (.and :: rest) = emit steps (polishFrom (.and :: stack') rest) := by
  rw [polishFrom, h]
  cases hrest : polishFrom (.and :: stack') rest with
  | error fault => simp only [hrest]; rfl
  | ok back => simp only [hrest]; rfl

theorem polishFrom_or {steps : List Step} (h : popJunctions stack = (steps, stack'))
    (rest : List Token) :
    polishFrom stack (.or :: rest) = emit steps (polishFrom (.or :: stack') rest) := by
  rw [polishFrom, h]
  cases hrest : polishFrom (.or :: stack') rest with
  | error fault => simp only [hrest]; rfl
  | ok back => simp only [hrest]; rfl

theorem polishFrom_closing {group negation : List Step} {stack'' : List Pending}
    (hgroup : popGroup stack = .ok (group, stack'))
    (hnot : popNegation stack' = (negation, stack''))
    (rest : List Token) :
    polishFrom stack (.closing :: rest) = emit (group ++ negation) (polishFrom stack'' rest) := by
  rw [polishFrom, hgroup]
  simp only [bind, Except.bind, hnot]
  cases polishFrom stack'' rest <;> rfl

/-! ## Reading a part -/

/-- Reading the tokens on the stack gives out the steps and leaves the waiting operators on it.
Together they compute the criterion. -/
structure Reads (stack : List Pending) (tokens : List Token) (tree : Criteria)
    (steps : List Step) (waiting : List Pending) : Prop where
  polishFrom_append : ∀ rest,
    polishFrom stack (tokens ++ rest) = emit steps (polishFrom (waiting ++ stack) rest)
  evaluate_steps : ∀ operands,
    evaluate operands (steps ++ stepsOf waiting) = .ok (tree :: operands)
  not_opening : Pending.opening ∉ waiting

namespace Reads

variable {tokens : List Token} {tree : Criteria} {steps : List Step} {waiting : List Pending}

theorem comparison (stack : List Pending) (c : Comparison) :
    Reads stack [.comparison c] c.criteria [.operand c] [] where
  polishFrom_append rest := polishFrom_comparison stack c rest
  evaluate_steps _ := rfl
  not_opening := List.not_mem_nil

/-- The closing parenthesis takes everything off that waits behind the opening one. -/
theorem group (h : Reads (.opening :: stack) tokens tree steps waiting)
    (hstack : stack.head? ≠ some .not) :
    Reads stack (.opening :: (tokens ++ [.closing])) tree (steps ++ stepsOf waiting) [] where
  polishFrom_append rest := by
    have hclose := polishFrom_closing (popGroup_append h.not_opening stack)
      (popNegation_eq hstack) rest
    rw [List.cons_append, polishFrom, List.append_assoc, List.singleton_append,
      h.polishFrom_append, hclose, emit_emit, List.append_nil]
    rfl
  evaluate_steps operands := by
    have hsteps := h.evaluate_steps operands
    rwa [stepsOf_nil, List.append_nil]
  not_opening := List.not_mem_nil

/-- A NOT right before the opening parenthesis goes with the group. -/
theorem negatedGroup (h : Reads (.opening :: .not :: stack) tokens tree steps waiting) :
    Reads stack (.not :: .opening :: (tokens ++ [.closing])) (.negation tree)
      (steps ++ stepsOf waiting ++ [.not]) [] where
  polishFrom_append rest := by
    have hnot : popNegation (.not :: stack) = ([.not], stack) := rfl
    have hclose := polishFrom_closing (popGroup_append h.not_opening (.not :: stack)) hnot rest
    rw [List.cons_append, polishFrom, List.cons_append, polishFrom, List.append_assoc,
      List.singleton_append, h.polishFrom_append, hclose, emit_emit, List.append_assoc]
    rfl
  evaluate_steps operands := by
    rw [stepsOf_nil, List.append_nil, evaluate_append, h.evaluate_steps]
    rfl
  not_opening := List.not_mem_nil

theorem not_opening_concat {p : Pending} (h : Pending.opening ∉ waiting) (hp : p ≠ .opening) :
    Pending.opening ∉ waiting ++ [p] := by
  intro hmem
  rcases List.mem_append.1 hmem with hmem | hmem
  · exact h hmem
  · exact hp (List.mem_singleton.1 hmem).symm

/-- Any other NOT waits below what it negates. -/
theorem negation (h : Reads (.not :: stack) tokens tree steps waiting) :
    Reads stack (.not :: tokens) (.negation tree) steps (waiting ++ [.not]) where
  polishFrom_append rest := by
    rw [List.cons_append, polishFrom, h.polishFrom_append, List.append_assoc]
    rfl
  evaluate_steps operands := by
    rw [stepsOf_append, ← List.append_assoc, evaluate_append, h.evaluate_steps]
    rfl
  not_opening := not_opening_concat h.not_opening Pending.noConfusion

variable {front back : List Token} {first second : Criteria} {steps' : List Step}
  {waiting' : List Pending}

/-- The operands of a connective are computed before it, the first below the second. -/
theorem evaluate_connective {connective : Step} {tree : Criteria}
    (h : Reads stack front first steps waiting)
    (h' : Reads stack' back second steps' waiting')
    (happly : ∀ operands, connective.apply (second :: first :: operands) = .ok (tree :: operands))
    (operands : List Criteria) :
    evaluate operands (steps ++ stepsOf waiting ++ steps' ++ (stepsOf waiting' ++ [connective])) =
      .ok (tree :: operands) := by
  have hfirst := h.evaluate_steps operands
  have hsecond := h'.evaluate_steps (first :: operands)
  rw [List.append_assoc, evaluate_append, hfirst, ← List.append_assoc]
  simp only [bind, Except.bind]
  rw [evaluate_append, hsecond]
  simp only [bind, Except.bind, evaluate, happly]

theorem and (h : Reads stack front first steps waiting) (hands : ∀ p ∈ waiting, p = .and)
    (hstack : stack.head? ≠ some .and) (h' : Reads (.and :: stack) back second steps' waiting') :
    Reads stack (front ++ .and :: back) (.junction .all [first, second])
      (steps ++ stepsOf waiting ++ steps') (waiting' ++ [.and]) where
  polishFrom_append rest := by
    have hand := polishFrom_and (popAnds_append hands hstack) (back ++ rest)
    rw [List.append_assoc, List.cons_append, h.polishFrom_append, hand, h'.polishFrom_append,
      emit_emit, emit_emit, List.append_assoc waiting']
    rfl
  evaluate_steps operands := by
    rw [stepsOf_append]
    exact evaluate_connective h h' (fun _ => rfl) operands
  not_opening := not_opening_concat h'.not_opening Pending.noConfusion

theorem or (h : Reads stack front first steps waiting)
    (hjunctions : ∀ p ∈ waiting, p = .and ∨ p = .or) (hand : stack.head? ≠ some .and)
    (hor : stack.head? ≠ some .or) (h' : Reads (.or :: stack) back second steps' waiting') :
    Reads stack (front ++ .or :: back) (.junction .any [first, second])
      (steps ++ stepsOf waiting ++ steps') (waiting' ++ [.or]) where
  polishFrom_append rest := by
    have hpop := polishFrom_or (popJunctions_append hjunctions hand hor) (back ++ rest)
    rw [List.append_assoc, List.cons_append, h.polishFrom_append, hpop, h'.polishFrom_append,
      emit_emit, emit_emit, List.append_assoc waiting']
    rfl
  evaluate_steps operands := by
    rw [stepsOf_append]
    exact evaluate_connective h h' (fun _ => rfl) operands
  not_opening := not_opening_concat h'.not_opening Pending.noConfusion

end Reads

/-! ## Every derivation is read -/

/-- What a closed part may leave waiting, and what its tokens must not meet on top. -/
def Part.leaves : Part → Pending → Prop
  | .operand, _ => False
  | .chain, p => p = .and
  | .expression, p => p = .and ∨ p = .or

/-- The part can be read on the stack: the top is nothing that its connectives take off, and no
NOT that would go with a leading parenthesis. -/
structure Part.Fits (part : Part) (tokens : List Token) (stack : List Pending) : Prop where
  not_leaves : ∀ p ∈ stack.head?, ¬ part.leaves p
  not_negated : tokens.head? = some .opening → stack.head? ≠ some .not

theorem Part.fits_nil (part : Part) (tokens : List Token) : part.Fits tokens [] where
  not_leaves p hp := by cases hp
  not_negated _ hnot := by cases hnot

theorem Part.fits_cons {part : Part} {tokens : List Token} {p : Pending} (hleaves : ¬ part.leaves p)
    (hnot : tokens.head? = some .opening → p ≠ .not) (stack : List Pending) :
    part.Fits tokens (p :: stack) where
  not_leaves q hq := by
    cases hq
    exact hleaves
  not_negated hhead htop := hnot hhead (Option.some.inj htop)

/-- Everything fits behind an opening parenthesis. -/
theorem Part.fits_opening (tokens : List Token) (stack : List Pending) :
    Part.expression.Fits tokens (.opening :: stack) := by
  have hleaves : ¬ Part.expression.leaves .opening := by
    rintro (hleft | hleft) <;> cases hleft
  exact Part.fits_cons hleaves (fun _ => Pending.noConfusion) stack

/-- Behind a NOT fits what begins with no parenthesis. -/
theorem Part.fits_not {tokens : List Token} (h : tokens.head? ≠ some .opening)
    (stack : List Pending) : Part.expression.Fits tokens (.not :: stack) := by
  have hleaves : ¬ Part.expression.leaves .not := by
    rintro (hleft | hleft) <;> cases hleft
  exact Part.fits_cons hleaves (fun hhead => absurd hhead h) stack

theorem Part.Fits.loosen {part part' : Part} {tokens : List Token} {stack : List Pending}
    (h : part.Fits tokens stack) (hleaves : ∀ p, part'.leaves p → part.leaves p) :
    part'.Fits tokens stack where
  not_leaves p hp hleft := h.not_leaves p hp (hleaves p hleft)
  not_negated := h.not_negated

/-- The tokens in front of a connective fit where the whole does. -/
theorem Part.Fits.front {part : Part} {front back : List Token} {stack : List Pending}
    (h : part.Fits (front ++ back) stack) : part.Fits front stack where
  not_leaves := h.not_leaves
  not_negated hhead := by
    obtain ⟨rest, rfl⟩ := List.head?_eq_some_iff.1 hhead
    exact h.not_negated rfl

namespace Derives

/-- Whatever is derived is read as the tree of the derivation, on every stack it fits. A part
that is not the last of its group leaves only what the connective behind it takes off. -/
theorem reads {part : Part} {last : Bool} {tokens : List Token} {tree : Criteria}
    (h : Derives part last tokens tree) {stack : List Pending} (hfits : part.Fits tokens stack) :
    ∃ steps waiting, Reads stack tokens tree steps waiting ∧
      (last = false → ∀ p ∈ waiting, part.leaves p) := by
  induction h generalizing stack with
  | comparison last c =>
    refine ⟨_, _, .comparison stack c, ?_⟩
    intro _ p hp
    cases hp
  | @group last tokens tree _ ih =>
    obtain ⟨steps, waiting, hreads, -⟩ := ih (Part.fits_opening tokens stack)
    refine ⟨_, _, hreads.group (hfits.not_negated rfl), ?_⟩
    intro _ p hp
    cases hp
  | @negatedGroup last tokens tree _ ih =>
    obtain ⟨steps, waiting, hreads, -⟩ := ih (Part.fits_opening tokens (.not :: stack))
    refine ⟨_, _, hreads.negatedGroup, ?_⟩
    intro _ p hp
    cases hp
  | @negation tokens tree hopening _ ih =>
    obtain ⟨steps, waiting, hreads, -⟩ := ih (Part.fits_not hopening stack)
    refine ⟨_, _, hreads.negation, ?_⟩
    intro hlast
    cases hlast
  | ofOperand _ ih =>
    obtain ⟨steps, waiting, hreads, hleft⟩ := ih (hfits.loosen fun _ => False.elim)
    exact ⟨steps, waiting, hreads, fun hlast p hp => (hleft hlast p hp).elim⟩
  | @and last front back first second _ _ ihfront ihback =>
    obtain ⟨steps, waiting, hreads, hleft⟩ := ihfront hfits.front
    have hback : Part.operand.Fits back (.and :: stack) :=
      Part.fits_cons id (fun _ => Pending.noConfusion) stack
    obtain ⟨steps', waiting', hreads', hleft'⟩ := ihback hback
    have htop : stack.head? ≠ some .and := fun htop => hfits.not_leaves _ htop rfl
    refine ⟨_, _, hreads.and (hleft rfl) htop hreads', ?_⟩
    intro hlast p hp
    rcases List.mem_append.1 hp with hp | hp
    · exact (hleft' hlast p hp).elim
    · exact List.mem_singleton.1 hp
  | ofChain _ ih =>
    obtain ⟨steps, waiting, hreads, hleft⟩ := ih (hfits.loosen fun _ => Or.inl)
    exact ⟨steps, waiting, hreads, fun hlast p hp => Or.inl (hleft hlast p hp)⟩
  | @or last front back first second _ _ ihfront ihback =>
    obtain ⟨steps, waiting, hreads, hleft⟩ := ihfront hfits.front
    have hleaves : ¬ Part.chain.leaves .or := Pending.noConfusion
    have hback : Part.chain.Fits back (.or :: stack) :=
      Part.fits_cons hleaves (fun _ => Pending.noConfusion) stack
    obtain ⟨steps', waiting', hreads', hleft'⟩ := ihback hback
    have hand : stack.head? ≠ some .and := fun htop => hfits.not_leaves _ htop (Or.inl rfl)
    have hor : stack.head? ≠ some .or := fun htop => hfits.not_leaves _ htop (Or.inr rfl)
    refine ⟨_, _, hreads.or (hleft rfl) hand hor hreads', ?_⟩
    intro hlast p hp
    rcases List.mem_append.1 hp with hp | hp
    · exact Or.inl (hleft' hlast p hp)
    · exact Or.inr (List.mem_singleton.1 hp)

/-- The steps of a derived expression compute its tree. -/
theorem exists_polish {tokens : List Token} {tree : Criteria}
    (h : Derives .expression true tokens tree) :
    ∃ steps, polish tokens = .ok steps ∧ evaluate [] steps = .ok [tree] := by
  obtain ⟨steps, waiting, hreads, -⟩ := h.reads (Part.fits_nil .expression tokens)
  refine ⟨steps ++ stepsOf waiting, ?_, hreads.evaluate_steps []⟩
  have hpolish := hreads.polishFrom_append []
  rw [List.append_nil, List.append_nil, polishFrom, popAll_eq hreads.not_opening] at hpolish
  exact hpolish

end Derives

theorem criterionOf_of_polish {tokens : List Token} {steps : List Step} {tree : Criteria}
    (hpolish : polish tokens = .ok steps) (hsteps : evaluate [] steps = .ok [tree])
    (text : String) : criterionOf text tokens = .ok tree := by
  have hne : steps ≠ [] := by
    rintro rfl
    cases hsteps
  have hempty : steps.isEmpty = false := List.isEmpty_eq_false_iff.2 hne
  rw [criterionOf, hpolish]
  simp only [bind, Except.bind, hempty, hsteps]
  rfl

/-- Every derived expression has the criterion of its derivation, whatever the text: AND binds
tighter than OR, both group to the left, and a NOT negates the group behind it or else all that
follows in its own group. -/
theorem criterionOf_derived {tokens : List Token} {tree : Criteria}
    (h : Derives .expression true tokens tree) (text : String) :
    criterionOf text tokens = .ok tree := by
  obtain ⟨steps, hpolish, hsteps⟩ := h.exists_polish
  exact criterionOf_of_polish hpolish hsteps text

/-- The key equals the value. -/
def equalTo (key value : String) : Token := .comparison ⟨key, .equal, value⟩

/-- A condition with every kind of operand: `a = '1' OR b = '2' AND NOT NOT (c = '3' OR d = '4')
OR e = '5'`. The first NOT reaches to the end, the second to the closing parenthesis. -/
def nestedNegations : List Token :=
  [equalTo "a" "1", .or, equalTo "b" "2", .and, .not, .not, .opening, equalTo "c" "3", .or,
    equalTo "d" "4", .closing, .or, equalTo "e" "5"]

theorem criterionOf_nestedNegations :
    Derives .expression true nestedNegations
      (.junction .any [.term "a" "1", .junction .all [.term "b" "2", .negation
        (.junction .any [.negation (.junction .any [.term "c" "3", .term "d" "4"]),
          .term "e" "5"])]]) ∧
    criterionOf "" nestedNegations =
      .ok (.junction .any [.term "a" "1", .junction .all [.term "b" "2", .negation
        (.junction .any [.negation (.junction .any [.term "c" "3", .term "d" "4"]),
          .term "e" "5"])]]) := by
  have hleaf : ∀ last key value, Derives .operand last [equalTo key value] (.term key value) :=
    fun last key value => .comparison last ⟨key, .equal, value⟩
  have hinner : Derives .expression true [equalTo "c" "3", .or, equalTo "d" "4"]
      (.junction .any [.term "c" "3", .term "d" "4"]) :=
    .or (.ofChain (.ofOperand (hleaf false "c" "3"))) (.ofOperand (hleaf true "d" "4"))
  have hrest := Derives.or (.ofChain (.ofOperand (.negatedGroup false hinner)))
    (.ofOperand (hleaf true "e" "5"))
  have hchain := Derives.and (.ofOperand (hleaf false "b" "2"))
    (.negation (by decide) hrest)
  have hall := Derives.or (.ofChain (.ofOperand (hleaf false "a" "1"))) hchain
  exact ⟨hall, criterionOf_derived hall ""⟩

end ArchiveCatalog.Dsl
