import ArchiveCatalog.Proofs.Criteria
import ArchiveCatalog.Proofs.Inverted.Terms

namespace ArchiveCatalog

/-! # Anchored criteria

A search that only excludes finds nothing, so an index looks for the negation of a comparison
among the documents that have the element. Anchored evaluation is what comes of that: the
negation of a comparison asks for a value of its element, all else is as in `Criteria.holds`.
It differs from that on metadata only which lack an element that is negated directly.
-/

namespace Criteria

/-- The element of a comparison has a value; nothing is asked of other criteria. -/
def isPresent (m : Metadata) (c : Criteria) : Bool :=
  c.element?.all fun element => !(m.values element).isEmpty

mutual

/-- The metadata satisfy the criterion, and have the elements whose comparisons it negates. -/
def anchored (m : Metadata) : Criteria → Bool
  | .term element value => holds m (.term element value)
  | .range element bounds inclusive => holds m (.range element bounds inclusive)
  | .junction .all members => allAnchored m members
  | .junction .any members => anyAnchored m members
  | .negation member => isPresent m member && !anchored m member

/-- The metadata satisfy every criterion in this sense. -/
def allAnchored (m : Metadata) : List Criteria → Bool
  | [] => true
  | c :: cs => anchored m c && allAnchored m cs

/-- The metadata satisfy some criterion in this sense. -/
def anyAnchored (m : Metadata) : List Criteria → Bool
  | [] => false
  | c :: cs => anchored m c || anyAnchored m cs

end

mutual

/-- The elements of the comparisons that are negated directly. -/
def negatedElements : Criteria → List String
  | .term .. | .range .. => []
  | .junction _ members => negatedElementsOf members
  | .negation member => member.element?.toList ++ negatedElements member

/-- The elements of the comparisons that several criteria negate directly. -/
def negatedElementsOf : List Criteria → List String
  | [] => []
  | c :: cs => negatedElements c ++ negatedElementsOf cs

end

variable {m : Metadata}

mutual

/-- With a value for each element that is negated directly, anchored evaluation is the usual. -/
theorem anchored_eq_holds : ∀ c : Criteria, (∀ e ∈ c.negatedElements, m.values e ≠ []) →
    c.anchored m = c.holds m
  | .term _ _, _ => rfl
  | .range _ _ _, _ => rfl
  | .junction .all members, h => (anchoredOf_eq_holdOf members h).1
  | .junction .any members, h => (anchoredOf_eq_holdOf members h).2
  | .negation member, h => by
    have hmember := anchored_eq_holds member fun e he => h e (List.mem_append_right _ he)
    -- only the negation of a comparison asks for a value, and there is one
    have hpresent : isPresent m member = true := by
      unfold isPresent
      cases helement : member.element? with
      | none => rfl
      | some element =>
        have hvalue := h element (List.mem_append_left _ (by simp [helement]))
        simpa using hvalue
    rw [anchored, holds, hmember, hpresent, Bool.true_and]

theorem anchoredOf_eq_holdOf : ∀ cs : List Criteria,
    (∀ e ∈ negatedElementsOf cs, m.values e ≠ []) →
    allAnchored m cs = allHold m cs ∧ anyAnchored m cs = anyHolds m cs
  | [], _ => ⟨rfl, rfl⟩
  | c :: cs, h => by
    have hone := anchored_eq_holds c fun e he => h e (List.mem_append_left _ he)
    rcases anchoredOf_eq_holdOf cs fun e he => h e (List.mem_append_right _ he) with ⟨hall, hany⟩
    rw [allAnchored, anyAnchored, allHold, anyHolds, hone, hall, hany]
    exact ⟨rfl, rfl⟩

end

theorem allAnchored_eq_all (cs : List Criteria) : allAnchored m cs = cs.all (·.anchored m) := by
  induction cs with
  | nil => rfl
  | cons c rest ih => rw [allAnchored, List.all_cons, ih]

end Criteria

namespace Query

/-- The metadata satisfy every criterion in the anchored sense. -/
def anchored (q : Query) (m : Metadata) : Bool := q.criteria.all (·.anchored m)

/-- The elements of the comparisons that a query negates directly. -/
def negatedElements (q : Query) : List String := q.criteria.flatMap Criteria.negatedElements

theorem anchored_eq_holds {q : Query} {m : Metadata}
    (h : ∀ e ∈ q.negatedElements, m.values e ≠ []) : q.anchored m = q.holds m := by
  have hone : ∀ c ∈ q.criteria, c.anchored m = c.holds m := fun c hc =>
    c.anchored_eq_holds fun e he => h e (List.mem_flatMap.2 ⟨c, hc, he⟩)
  unfold anchored holds
  rw [Bool.eq_iff_iff, List.all_eq_true, List.all_eq_true]
  exact forall₂_congr fun c hc => by rw [hone c hc]

/-- One criterion is satisfied exactly when the query is. -/
theorem anchored_asCriterion {q : Query} {c : Criteria} (h : q.asCriterion = some c)
    (m : Metadata) : c.anchored m = q.anchored m := by
  match q with
  | ⟨[]⟩ => simp [asCriterion] at h
  | ⟨[d]⟩ => simp [asCriterion] at h; simp [anchored, h]
  | ⟨d :: e :: rest⟩ =>
    simp only [asCriterion, Option.some.injEq] at h
    subst h
    simp [anchored, Criteria.anchored, Criteria.allAnchored_eq_all]

end Query

namespace Inverted

/-- Elements with values have names that are told from the values in a term. -/
def Separated (m : Metadata) : Prop := ∀ e, m.values e ≠ [] → Separable e

namespace Search

/-! ## Searches -/

variable {d : Document}

theorem accepts_term (hd : Separated d.metadata) {element : String} (he : Separable element)
    (value : String) :
    (Search.term .metadata (metadataTerm element value)).accepts d =
      (d.metadata.values element).any (· == value) := by
  rw [accepts]
  show (metadataTerms d.metadata).contains _ = _
  rw [List.contains_eq_any_beq, any_metadataTerms hd he]
  · refine congrArg (d.metadata.values element).any (funext ?_)
    intro v
    rw [Bool.eq_iff_iff, beq_iff_eq, beq_iff_eq]
    exact ⟨fun h => (metadataTerm_inj h).symm, fun h => h ▸ rfl⟩
  · intro text htext
    rw [← beq_iff_eq.1 htext]
    exact ⟨lowerBound_le_term element value, term_lt_upperBound element value⟩

theorem accepts_range (hd : Separated d.metadata) {element : String} (he : Separable element)
    (bounds : Bounds) (inclusive : Bool) :
    (Search.range .metadata (lowerLimit element bounds inclusive)
      (upperLimit element bounds inclusive)).accepts d =
      (d.metadata.values element).any (bounds.contains inclusive) := by
  rw [accepts]
  show (metadataTerms d.metadata).any _ = _
  rw [any_metadataTerms hd he]
  · simp only [limits_admit_term]
  · intro text htext
    rw [Bool.and_eq_true] at htext
    exact ⟨lowerBound_le_of_admitsAbove htext.1, lt_upperBound_of_admitsBelow htext.2⟩

theorem accepts_present (hd : Separated d.metadata) {element : String} (he : Separable element) :
    (present element).accepts d = !(d.metadata.values element).isEmpty := by
  rw [present, accepts]
  show (metadataTerms d.metadata).any _ = _
  rw [any_metadataTerms hd he]
  · cases d.metadata.values element with
    | nil => rfl
    | cons v rest =>
      simp only [List.any_cons, Limit.admitsAbove, Limit.admitsBelow, lowerBound_le_term,
        term_lt_upperBound, decide_true, Bool.and_self, Bool.true_or, List.isEmpty_cons,
        Bool.not_false]
  · intro text htext
    simpa [Limit.admitsAbove, Limit.admitsBelow] using htext

mutual

/-- The search for a criterion finds the documents whose metadata satisfy it, anchored. -/
theorem accepts_ofCriteria (hd : Separated d.metadata) :
    ∀ c : Criteria, (∀ e ∈ c.mentions, Separable e) →
      (ofCriteria c).accepts d = c.anchored d.metadata
  | .term element value, h => by
    rw [ofCriteria, accepts_term hd (h element List.mem_cons_self)]
    rfl
  | .range element bounds inclusive, h => by
    rw [ofCriteria, accepts_range hd (h element List.mem_cons_self)]
    rfl
  | .junction .all members, h => by
    rw [ofCriteria, accepts, Criteria.anchored, (accepts_ofMembers hd members h).1]
  | .junction .any members, h => by
    rw [ofCriteria, accepts, Criteria.anchored, (accepts_ofMembers hd members h).2]
  | .negation member, h => by
    -- the documents to exclude from are those with the element, or all
    have hanchor : (anchor member).accepts d = member.isPresent d.metadata := by
      unfold anchor Criteria.isPresent
      cases member with
      | term element value => exact accepts_present hd (h element List.mem_cons_self)
      | range element bounds inclusive => exact accepts_present hd (h element List.mem_cons_self)
      | junction operator members => rfl
      | negation inner => rfl
    rw [ofCriteria, accepts, Criteria.anchored, hanchor, accepts_ofCriteria hd member h]

theorem accepts_ofMembers (hd : Separated d.metadata) : ∀ cs : List Criteria,
    (∀ e ∈ Criteria.mentionsOf cs, Separable e) →
    acceptedByAll d (ofMembers cs) = Criteria.allAnchored d.metadata cs ∧
      acceptedByAny d (ofMembers cs) = Criteria.anyAnchored d.metadata cs
  | [], _ => ⟨rfl, rfl⟩
  | c :: cs, h => by
    have hone := accepts_ofCriteria hd c fun e he => h e (List.mem_append_left _ he)
    rcases accepts_ofMembers hd cs fun e he => h e (List.mem_append_right _ he) with ⟨hall, hany⟩
    rw [ofMembers, acceptedByAll, acceptedByAny, Criteria.allAnchored, Criteria.anyAnchored, hone,
      hall, hany]
    exact ⟨rfl, rfl⟩

end

theorem mem_terms_congr {d' : Document} (h : d.metadata.SameValues d'.metadata) (text : String) :
    text ∈ d.terms .metadata ↔ text ∈ d'.terms .metadata := by
  show text ∈ metadataTerms d.metadata ↔ text ∈ metadataTerms d'.metadata
  rw [mem_metadataTerms, mem_metadataTerms]
  exact exists_congr fun e => exists_congr fun v => and_congr_left' (h e v)

mutual

/-- Of a document only the values in its metadata matter to the search for a criterion. -/
theorem accepts_congr {d' : Document} (h : d.metadata.SameValues d'.metadata) : ∀ c : Criteria,
    (ofCriteria c).accepts d = (ofCriteria c).accepts d'
  | .term element value => by
    rw [ofCriteria, accepts, accepts, List.contains_eq_any_beq, List.contains_eq_any_beq]
    exact Metadata.any_congr_mem (mem_terms_congr h) _
  | .range element bounds inclusive => by
    rw [ofCriteria, accepts, accepts]
    exact Metadata.any_congr_mem (mem_terms_congr h) _
  | .junction .all members => by
    rw [ofCriteria, accepts, accepts, (accepts_members_congr h members).1]
  | .junction .any members => by
    rw [ofCriteria, accepts, accepts, (accepts_members_congr h members).2]
  | .negation member => by
    have hanchor : (anchor member).accepts d = (anchor member).accepts d' := by
      unfold anchor
      cases member.element? with
      | none => rfl
      | some element =>
        dsimp only
        rw [present, accepts, accepts]
        exact Metadata.any_congr_mem (mem_terms_congr h) _
    rw [ofCriteria, accepts, accepts, hanchor, accepts_congr h member]

theorem accepts_members_congr {d' : Document} (h : d.metadata.SameValues d'.metadata) :
    ∀ cs : List Criteria, acceptedByAll d (ofMembers cs) = acceptedByAll d' (ofMembers cs) ∧
      acceptedByAny d (ofMembers cs) = acceptedByAny d' (ofMembers cs)
  | [] => ⟨rfl, rfl⟩
  | c :: cs => by
    rcases accepts_members_congr h cs with ⟨hall, hany⟩
    rw [ofMembers, acceptedByAll, acceptedByAny, acceptedByAll, acceptedByAny, accepts_congr h c,
      hall, hany]
    exact ⟨rfl, rfl⟩

end

/-! ## Queries -/

/-- The search for a query, whatever the type, finds the metadata. -/
def finds (q : Query) (m : Metadata) : Bool :=
  match q.asCriterion with
  | none => true
  | some c => (ofCriteria c).accepts (.ofProduct "" default m)

theorem contains_singleton (a b : String) : [a].contains b = (a == b) := by
  rw [List.contains_cons, List.contains_nil, Bool.or_false, Bool.eq_iff_iff, beq_iff_eq, beq_iff_eq]
  exact eq_comm

theorem accepts_ofType (typeId : String) : (ofType typeId).accepts d = (d.typeId == typeId) := by
  rw [ofType, accepts]
  exact contains_singleton d.typeId typeId

theorem accepts_productName (name : String) :
    (Search.term .productName name).accepts d = (d.name == name) := by
  rw [accepts]
  exact contains_singleton d.name name

/-- The search for a query finds the documents of the type whose metadata it finds. -/
theorem accepts_ofQuery (q : Query) (typeId : String) :
    (ofQuery q typeId).accepts d = (d.typeId == typeId && finds q d.metadata) := by
  unfold ofQuery finds
  cases q.asCriterion with
  | none => rw [accepts_ofType, Bool.and_true]
  | some c =>
    -- whichever document has the metadata, the search for a criterion cannot tell
    have hmetadata : d.metadata.SameValues (Document.ofProduct "" default d.metadata).metadata :=
      fun _ _ => Iff.rfl
    rw [accepts, acceptedByAll, acceptedByAll, acceptedByAll, accepts_ofType, Bool.and_true,
      accepts_congr hmetadata]

/-- It finds metadata with the same values alike. -/
theorem finds_congr {m n : Metadata} (h : m.SameValues n) (q : Query) : finds q m = finds q n := by
  unfold finds
  cases q.asCriterion with
  | none => rfl
  | some c => exact accepts_congr h c

/-- It finds the metadata that satisfy the query in the anchored sense. -/
theorem finds_eq_anchored {m : Metadata} (hm : Separated m) {q : Query}
    (hq : ∀ e ∈ q.elements, Separable e) : finds q m = q.anchored m := by
  unfold finds
  cases hcriterion : q.asCriterion with
  | none =>
    rw [Query.anchored, Query.criteria_of_asCriterion hcriterion]
    rfl
  | some c =>
    have hmentions : ∀ e ∈ c.mentions, Separable e := fun e he =>
      hq e (Query.mem_mentions_of_asCriterion hcriterion he)
    have hc := accepts_ofCriteria (d := .ofProduct "" default m) hm c hmentions
    dsimp only
    rw [hc, ← Query.anchored_asCriterion hcriterion]
    rfl

end Search

end Inverted

end ArchiveCatalog
