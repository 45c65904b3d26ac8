import Mathlib.Logic.Relation
import ArchiveCatalog.Proofs.Criteria
import ArchiveCatalog.Proofs.NormalForm

namespace ArchiveCatalog.Criteria

/-! # Canonical forms

Criteria may differ in nothing but the grouping of terms and whether the two bounds of a range
stand in one comparison or in two. Among all criteria that differ so, one is canonical, and it is
the normal form of every one of them. Normalization keeps the comparisons in their order, and a
second one changes nothing.
-/

open Relation (EqvGen)

mutual

/-- The comparisons of a tree from left to right. -/
def leaves : Criteria → List Criteria
  | .term element value => [.term element value]
  | .range element bounds inclusive => [.range element bounds inclusive]
  | .junction _ members => leavesOf members
  | .negation member => leaves member

/-- The comparisons of several trees. -/
def leavesOf : List Criteria → List Criteria
  | [] => []
  | c :: cs => leaves c ++ leavesOf cs

end

/-- A range with two bounds comes apart into two with one each, the lower bound first. -/
def halves : Criteria → List Criteria
  | .range element (.both lower upper) inclusive =>
    [.range element (.start lower) inclusive, .range element (.stop upper) inclusive]
  | c => [c]

/-- No range has two bounds, every junction has at least two members, and none of them is a
junction of its kind. -/
inductive IsCanonical : Criteria → Prop
  | term (element value : String) : IsCanonical (.term element value)
  | start (element lower : String) (inclusive : Bool) :
      IsCanonical (.range element (.start lower) inclusive)
  | stop (element upper : String) (inclusive : Bool) :
      IsCanonical (.range element (.stop upper) inclusive)
  | junction {operator : Junction} {members : List Criteria} (several : 2 ≤ members.length)
      (apart : ∀ member ∈ members, ¬ member.Joins operator)
      (inner : ∀ member ∈ members, IsCanonical member) : IsCanonical (.junction operator members)
  | negation {member : Criteria} (inner : IsCanonical member) : IsCanonical (.negation member)

/-- Some tree within the first is replaced as the relation allows. -/
inductive Somewhere (r : Criteria → Criteria → Prop) : Criteria → Criteria → Prop
  | here {c d : Criteria} : r c d → Somewhere r c d
  | member {c d : Criteria} (operator : Junction) (before after : List Criteria) :
      Somewhere r c d → Somewhere r (.junction operator (before ++ c :: after))
        (.junction operator (before ++ d :: after))
  | negation {c d : Criteria} : Somewhere r c d → Somewhere r (.negation c) (.negation d)

/-- Adjacent members of a junction become one, a junction of its kind, or a tree becomes the only
member of a junction. -/
inductive Groups : Criteria → Criteria → Prop
  | adjacent (operator : Junction) (before members after : List Criteria) :
      Groups (.junction operator (before ++ members ++ after))
        (.junction operator (before ++ .junction operator members :: after))
  | alone (operator : Junction) (c : Criteria) : Groups c (.junction operator [c])

/-- A range with two bounds becomes the conjunction of its halves. -/
inductive Splits : Criteria → Criteria → Prop
  | both (element lower upper : String) (inclusive : Bool) :
      Splits (.range element (.both lower upper) inclusive)
        (.junction .all (halves (.range element (.both lower upper) inclusive)))

/-- The second criterion is the canonical form of the first. -/
structure HasCanonicalForm (c form : Criteria) : Prop where
  /-- It is one that the checked constructors build. -/
  built : Built form
  canonical : IsCanonical form
  /-- It is its own normal form. -/
  fixed : form.normalized = form
  /-- It has the same comparisons in the same order, but for ranges with two bounds. -/
  leaves : form.leaves = c.leaves.flatMap halves
  /-- However terms are grouped, it stays the normal form. -/
  grouped : ∀ d, EqvGen (Somewhere Groups) c d → d.normalized = form

variable {operator : Junction} {c d : Criteria} {cs ds : List Criteria}

/-! ## Well-formedness -/

theorem areValid_append :
    areValid (cs ++ ds) = true ↔ areValid cs = true ∧ areValid ds = true := by
  simp only [areValid_iff, List.mem_append, or_imp, forall_and]

theorem isValid_junction :
    (Criteria.junction operator cs).isValid = true ↔ cs ≠ [] ∧ areValid cs = true := by
  rw [isValid, Bool.and_eq_true, Bool.not_eq_true', List.isEmpty_eq_false_iff]

/-- A well-formed tree contributes something, and something well-formed, to a junction. -/
theorem isValid_spread (h : c.isValid = true) (operator : Junction) :
    c.spread operator ≠ [] ∧ areValid (c.spread operator) = true := by
  by_cases hjoins : c.Joins operator
  · obtain ⟨members, rfl⟩ := hjoins
    rw [spread_junction]
    exact isValid_junction.1 h
  · rw [spread_of_not_joins hjoins]
    exact ⟨List.cons_ne_nil c [], areValid_iff.2 (List.forall_mem_singleton.2 h)⟩

theorem isValid_ofMembers (hne : cs ≠ []) (h : areValid cs = true) :
    (ofMembers operator cs).isValid = true := by
  by_cases hlength : cs.length = 1
  · obtain ⟨c, rfl⟩ := List.length_eq_one_iff.1 hlength
    exact areValid_iff.1 h c List.mem_cons_self
  · rw [ofMembers_of_length hlength]
    exact isValid_junction.2 ⟨hne, h⟩

mutual

theorem isValid_normalized : ∀ c : Criteria, c.isValid = true → c.normalized.isValid = true
  | .term _ _, _ => rfl
  | .range _ (.both _ _) _, _ => rfl
  | .range _ (.start _) _, _ => rfl
  | .range _ (.stop _) _, _ => rfl
  | .junction operator members, h => by
    obtain ⟨hne, hmembers⟩ := isValid_junction.1 h
    obtain ⟨hsome, hvalid⟩ := areValid_normalizedMembers operator members hmembers
    exact isValid_ofMembers (hsome hne) hvalid
  | .negation member, h => isValid_normalized member h

theorem areValid_normalizedMembers (operator : Junction) : ∀ cs : List Criteria,
    areValid cs = true → (cs ≠ [] → normalizedMembers operator cs ≠ []) ∧
      areValid (normalizedMembers operator cs) = true
  | [], _ => ⟨fun hne => absurd rfl hne, rfl⟩
  | c :: cs, h => by
    rw [areValid, Bool.and_eq_true] at h
    obtain ⟨hne, hspread⟩ := isValid_spread (isValid_normalized c h.1) operator
    have hrest := (areValid_normalizedMembers operator cs h.2).2
    rw [normalizedMembers]
    constructor
    · intro _
      exact List.append_ne_nil_of_left_ne_nil hne _
    · exact areValid_append.2 ⟨hspread, hrest⟩

end

/-! ## Canonical trees -/

mutual

/-- Well-formed flat trees are canonical. -/
theorem isCanonical_of_isFlat : ∀ c : Criteria, c.isValid = true → c.IsFlat → c.IsCanonical
  | .term element value, _, _ => .term element value
  | .range element (.start lower) inclusive, _, _ => .start element lower inclusive
  | .range element (.stop upper) inclusive, _, _ => .stop element upper inclusive
  | .range _ (.both lower upper) _, _, hflat => absurd rfl (hflat lower upper)
  | .junction operator members, h, hflat => by
    obtain ⟨hne, hmembers⟩ := isValid_junction.1 h
    have hsome : 0 < members.length := List.length_pos_iff.2 hne
    have hnotOne : members.length ≠ 1 := hflat.1
    have hinner := areCanonical_of_areFlat operator members hmembers hflat.2
    exact .junction (by omega) (fun c hc => (hinner c hc).1) fun c hc => (hinner c hc).2
  | .negation member, h, hflat => .negation (isCanonical_of_isFlat member h hflat)

theorem areCanonical_of_areFlat (operator : Junction) : ∀ cs : List Criteria,
    areValid cs = true → AreFlat operator cs →
      ∀ c ∈ cs, ¬ c.Joins operator ∧ c.IsCanonical
  | [], _, _, _, hc => absurd hc List.not_mem_nil
  | c :: cs, h, hflat, d, hd => by
    rw [areValid, Bool.and_eq_true] at h
    obtain ⟨hjoins, hfirst, hrest⟩ := hflat
    rcases List.mem_cons.1 hd with hsame | hmem
    · rw [hsame]
      exact ⟨hjoins, isCanonical_of_isFlat c h.1 hfirst⟩
    · exact areCanonical_of_areFlat operator cs h.2 hrest d hmem

end

mutual

/-- A flat tree is its own normal form. -/
theorem normalized_of_isFlat : ∀ c : Criteria, c.IsFlat → c.normalized = c
  | .term _ _, _ => rfl
  | .range _ (.start _) _, _ => rfl
  | .range _ (.stop _) _, _ => rfl
  | .range _ (.both lower upper) _, h => absurd rfl (h lower upper)
  | .junction operator members, h => by
    rw [normalized, normalizedMembers_of_areFlat operator members h.2, ofMembers_of_length h.1]
  | .negation member, h => congrArg negation (normalized_of_isFlat member h)

theorem normalizedMembers_of_areFlat (operator : Junction) : ∀ cs : List Criteria,
    AreFlat operator cs → normalizedMembers operator cs = cs
  | [], _ => rfl
  | c :: cs, h => by
    obtain ⟨hjoins, hflat, hrest⟩ := h
    rw [normalizedMembers, normalized_of_isFlat c hflat, spread_of_not_joins hjoins,
      normalizedMembers_of_areFlat operator cs hrest]
    rfl

end

theorem areFlat_of_forall (h : ∀ c ∈ cs, ¬ c.Joins operator ∧ c.IsFlat) : AreFlat operator cs := by
  induction cs with
  | nil => trivial
  | cons c rest ih =>
    obtain ⟨hjoins, hflat⟩ := h c List.mem_cons_self
    exact ⟨hjoins, hflat, ih fun d hd => h d (List.mem_cons_of_mem c hd)⟩

theorem IsCanonical.isFlat (h : IsCanonical c) : c.IsFlat := by
  induction h with
  | term => trivial
  | start => exact fun _ _ => Bounds.noConfusion
  | stop => exact fun _ _ => Bounds.noConfusion
  | junction several apart _ ih =>
    constructor
    · omega
    · exact areFlat_of_forall fun member hmember => ⟨apart member hmember, ih member hmember⟩
  | negation _ ih => exact ih

/-! ## Comparisons -/

theorem leavesOf_append : leavesOf (cs ++ ds) = leavesOf cs ++ leavesOf ds := by
  induction cs with
  | nil => rfl
  | cons c rest ih => rw [List.cons_append, leavesOf, leavesOf, ih, List.append_assoc]

theorem leavesOf_singleton (c : Criteria) : leavesOf [c] = c.leaves := List.append_nil _

theorem leavesOf_spread (operator : Junction) (c : Criteria) :
    leavesOf (c.spread operator) = c.leaves := by
  by_cases hjoins : c.Joins operator
  · obtain ⟨members, rfl⟩ := hjoins
    rw [spread_junction, leaves]
  · rw [spread_of_not_joins hjoins, leavesOf_singleton]

theorem leaves_ofMembers (operator : Junction) (cs : List Criteria) :
    (ofMembers operator cs).leaves = leavesOf cs := by
  by_cases hlength : cs.length = 1
  · obtain ⟨c, rfl⟩ := List.length_eq_one_iff.1 hlength
    exact (leavesOf_singleton c).symm
  · rw [ofMembers_of_length hlength, leaves]

mutual

/-- Normalization halves ranges and otherwise keeps every comparison in its place. -/
theorem leaves_normalized : ∀ c : Criteria, c.normalized.leaves = c.leaves.flatMap halves
  | .term _ _ => rfl
  | .range _ (.start _) _ => rfl
  | .range _ (.stop _) _ => rfl
  | .range _ (.both _ _) _ => rfl
  | .junction operator members => by
    rw [normalized, leaves_ofMembers, leavesOf_normalizedMembers operator members, leaves]
  | .negation member => leaves_normalized member

theorem leavesOf_normalizedMembers (operator : Junction) : ∀ cs : List Criteria,
    leavesOf (normalizedMembers operator cs) = (leavesOf cs).flatMap halves
  | [] => rfl
  | c :: cs => by
    rw [normalizedMembers, leavesOf_append, leavesOf_spread, leaves_normalized c,
      leavesOf_normalizedMembers operator cs, leavesOf, List.flatMap_append]

end

/-! ## Grouping -/

theorem normalizedMembers_append (operator : Junction) (cs ds : List Criteria) :
    normalizedMembers operator (cs ++ ds) =
      normalizedMembers operator cs ++ normalizedMembers operator ds := by
  induction cs with
  | nil => rfl
  | cons c rest ih =>
    rw [List.cons_append, normalizedMembers, normalizedMembers, ih, List.append_assoc]

/-- What does not change the normal form of a tree does not change that of a tree around it. -/
theorem Somewhere.normalized_eq {r : Criteria → Criteria → Prop}
    (hr : ∀ c d, r c d → d.normalized = c.normalized) (h : Somewhere r c d) :
    d.normalized = c.normalized := by
  induction h with
  | here hroot => exact hr _ _ hroot
  | member operator before after _ ih =>
    simp only [normalized, normalizedMembers_append, normalizedMembers, ih]
  | negation _ ih => exact congrArg Criteria.negation ih

theorem Groups.normalized_eq (h : Groups c d) : d.normalized = c.normalized := by
  cases h with
  | adjacent operator before members after =>
    -- the inner junction gives back the normal forms of its members
    have hinner := spread_ofMembers (areFlat_normalizedMembers operator members)
    simp only [normalized, normalizedMembers_append, normalizedMembers, hinner, List.append_assoc]
  | alone operator =>
    rw [normalized, normalizedMembers, normalizedMembers, List.append_nil,
      ofMembers_spread (isFlat_normalized c)]

theorem Splits.normalized_eq (h : Splits c d) : d.normalized = c.normalized := by
  cases h
  rfl

/-- Nor does any number of such replacements, in either direction. -/
theorem normalized_eq_of_eqvGen {r : Criteria → Criteria → Prop}
    (hr : ∀ c d, r c d → d.normalized = c.normalized) (h : EqvGen (Somewhere r) c d) :
    d.normalized = c.normalized := by
  induction h with
  | rel c d hstep => exact hstep.normalized_eq hr
  | refl c => rfl
  | symm c d _ ih => exact ih.symm
  | trans c d e _ _ hfirst hsecond => exact hsecond.trans hfirst

/-! ## Normal forms of one kind -/

/-- A chain of replacements, each by grouping terms or splitting a range or the other way round. -/
def Rearranges : Criteria → Criteria → Prop :=
  EqvGen (Somewhere fun c d => Groups c d ∨ Splits c d)

namespace Rearranges

theorem refl (c : Criteria) : Rearranges c c := EqvGen.refl c

theorem symm (h : Rearranges c d) : Rearranges d c := EqvGen.symm c d h

theorem trans {e : Criteria} (h : Rearranges c d) (h' : Rearranges d e) : Rearranges c e :=
  EqvGen.trans c d e h h'

theorem of_groups (h : Groups c d) : Rearranges c d := EqvGen.rel c d (.here (.inl h))

theorem of_splits (h : Splits c d) : Rearranges c d := EqvGen.rel c d (.here (.inr h))

/-- What can be replaced anywhere in trees can be replaced anywhere in the trees around them. -/
theorem within {f : Criteria → Criteria}
    (hf : ∀ {r : Criteria → Criteria → Prop} {c d}, Somewhere r c d → Somewhere r (f c) (f d))
    (h : Rearranges c d) : Rearranges (f c) (f d) := by
  induction h with
  | rel c d hstep => exact EqvGen.rel _ _ (hf hstep)
  | refl c => exact refl _
  | symm c d _ ih => exact ih.symm
  | trans c d e _ _ hfirst hsecond => exact hfirst.trans hsecond

theorem member (operator : Junction) (before after : List Criteria) (h : Rearranges c d) :
    Rearranges (.junction operator (before ++ c :: after))
      (.junction operator (before ++ d :: after)) :=
  h.within fun hstep => .member operator before after hstep

theorem negation (h : Rearranges c d) : Rearranges (.negation c) (.negation d) :=
  h.within fun hstep => .negation hstep

/-- A junction of one member is unwrapped. -/
theorem ofMembers (operator : Junction) (cs : List Criteria) :
    Rearranges (.junction operator cs) (ofMembers operator cs) := by
  by_cases hlength : cs.length = 1
  · obtain ⟨c, rfl⟩ := List.length_eq_one_iff.1 hlength
    exact (of_groups (.alone operator c)).symm
  · rw [ofMembers_of_length hlength]
    exact refl _

/-- A member gives its place to what it contributes. -/
theorem spread (operator : Junction) (before : List Criteria) (c : Criteria)
    (after : List Criteria) :
    Rearranges (.junction operator (before ++ c :: after))
      (.junction operator (before ++ c.spread operator ++ after)) := by
  by_cases hjoins : c.Joins operator
  · obtain ⟨members, rfl⟩ := hjoins
    rw [spread_junction]
    exact (of_groups (.adjacent operator before members after)).symm
  · rw [spread_of_not_joins hjoins, List.append_assoc]
    exact refl _

end Rearranges

mutual

/-- Normalization is such a chain. -/
theorem rearranges_normalized : ∀ c : Criteria, Rearranges c c.normalized
  | .term _ _ => .refl _
  | .range _ (.start _) _ => .refl _
  | .range _ (.stop _) _ => .refl _
  | .range element (.both lower upper) inclusive =>
    .of_splits (.both element lower upper inclusive)
  | .junction operator members =>
    (rearranges_normalizedMembers operator [] members).trans (.ofMembers operator _)
  | .negation member => (rearranges_normalized member).negation

/-- The members before have their normal forms already. -/
theorem rearranges_normalizedMembers (operator : Junction) :
    ∀ before cs : List Criteria, Rearranges (.junction operator (before ++ cs))
      (.junction operator (before ++ normalizedMembers operator cs))
  | _, [] => .refl _
  | before, c :: cs => by
    have hfirst := (rearranges_normalized c).member operator before cs
    have hspread := Rearranges.spread operator before c.normalized cs
    have hrest :=
      rearranges_normalizedMembers operator (before ++ c.normalized.spread operator) cs
    rw [normalizedMembers, ← List.append_assoc]
    exact (hfirst.trans hspread).trans hrest

end

/-- Criteria have the same normal form exactly if they differ in grouping and split ranges only. -/
theorem normalized_eq_iff_rearranges : c.normalized = d.normalized ↔ Rearranges c d := by
  constructor
  · intro hsame
    have hback := (rearranges_normalized d).symm
    rw [← hsame] at hback
    exact (rearranges_normalized c).trans hback
  · intro h
    have hroot : ∀ c d, Groups c d ∨ Splits c d → d.normalized = c.normalized := by
      rintro c d (hgroups | hsplits)
      · exact hgroups.normalized_eq
      · exact hsplits.normalized_eq
    exact (normalized_eq_of_eqvGen hroot h).symm

/-- Canonical criteria that differ so are the same. -/
theorem IsCanonical.eq_of_rearranges (hc : IsCanonical c) (hd : IsCanonical d)
    (h : Rearranges c d) : c = d := by
  have hsame := normalized_eq_iff_rearranges.2 h
  rwa [normalized_of_isFlat c hc.isFlat, normalized_of_isFlat d hd.isFlat] at hsame

/-! ## The canonical form -/

/-- Whatever the checked constructors build has its normal form for a canonical form. -/
theorem normalized_canonical (h : Built c) : HasCanonicalForm c c.normalized := by
  have hvalid := isValid_normalized c h.isValid
  have hflat := isFlat_normalized c
  exact {
    built := built_iff_isValid.2 hvalid
    canonical := isCanonical_of_isFlat c.normalized hvalid hflat
    fixed := normalized_of_isFlat c.normalized hflat
    leaves := leaves_normalized c
    grouped := fun _ hgroups => normalized_eq_of_eqvGen (fun _ _ => Groups.normalized_eq) hgroups }

/-- An interval of orbits, alone in a disjunction within a conjunction. -/
def nestedInterval : Criteria :=
  .junction .all [.junction .any [.range "orbit" (.both "100" "200") true],
    .negation (.junction .all [.term "mode" "day"])]

/-- Unwrapping the disjunction brings the halves of the interval up into the conjunction. -/
theorem nestedInterval_canonical :
    Built nestedInterval ∧
      nestedInterval.normalized = .junction .all [.range "orbit" (.start "100") true,
        .range "orbit" (.stop "200") true, .negation (.term "mode" "day")] ∧
      HasCanonicalForm nestedInterval nestedInterval.normalized := by
  have hbuilt : Built nestedInterval := built_iff_isValid.2 rfl
  exact ⟨hbuilt, rfl, normalized_canonical hbuilt⟩

end ArchiveCatalog.Criteria
