import ArchiveCatalog.Criteria

namespace ArchiveCatalog.Criteria

/-! # Normal forms

A normal form is flat: no junction has a member of its own kind or one member only, and no range
has two bounds. So putting the members of a flat junction into another one of its kind and taking
them out again changes nothing, and it does not matter for the normal form whether the members of
a junction stand side by side or are nested in pairs.
-/

/-- The criterion is a junction of this kind. -/
def Joins (operator : Junction) (c : Criteria) : Prop := ∃ members, c = .junction operator members

mutual

/-- No junction in the tree has a member of its own kind or one member only, and no range in it
has two bounds. -/
def IsFlat : Criteria → Prop
  | .term _ _ => True
  | .range _ bounds _ => ∀ lower upper, bounds ≠ .both lower upper
  | .junction operator members => members.length ≠ 1 ∧ AreFlat operator members
  | .negation member => member.IsFlat

/-- The criteria are flat and none is a junction of this kind. -/
def AreFlat (operator : Junction) : List Criteria → Prop
  | [] => True
  | c :: cs => ¬ c.Joins operator ∧ c.IsFlat ∧ AreFlat operator cs

end

variable {operator : Junction} {c : Criteria} {cs ds : List Criteria}

theorem areFlat_append (hcs : AreFlat operator cs) (hds : AreFlat operator ds) :
    AreFlat operator (cs ++ ds) := by
  induction cs with
  | nil => exact hds
  | cons c rest ih =>
    obtain ⟨hjoins, hflat, hrest⟩ := hcs
    exact ⟨hjoins, hflat, ih hrest⟩

theorem spread_of_not_joins (h : ¬ c.Joins operator) : c.spread operator = [c] := by
  cases c with
  | junction o members =>
    have hne : o ≠ operator := by
      rintro rfl
      exact h ⟨members, rfl⟩
    rw [spread, if_neg hne]
  | term | range | negation => rfl

theorem spread_junction (operator : Junction) (members : List Criteria) :
    (Criteria.junction operator members).spread operator = members := by
  rw [spread, if_pos rfl]

theorem areFlat_spread (h : c.IsFlat) (operator : Junction) :
    AreFlat operator (c.spread operator) := by
  by_cases hjoins : c.Joins operator
  · obtain ⟨members, rfl⟩ := hjoins
    rw [spread_junction]
    exact h.2
  · rw [spread_of_not_joins hjoins]
    exact ⟨hjoins, h, trivial⟩

theorem ofMembers_of_length (h : cs.length ≠ 1) :
    ofMembers operator cs = .junction operator cs := by
  match cs with
  | [] => rfl
  | [c] => exact absurd rfl h
  | c :: d :: rest => rfl

theorem isFlat_ofMembers (h : AreFlat operator cs) : (ofMembers operator cs).IsFlat := by
  by_cases hlength : cs.length = 1
  · obtain ⟨c, rfl⟩ := List.length_eq_one_iff.1 hlength
    exact h.2.1
  · rw [ofMembers_of_length hlength]
    exact ⟨hlength, h⟩

/-- The members of a junction are taken out as they were put in. -/
theorem spread_ofMembers (h : AreFlat operator cs) :
    (ofMembers operator cs).spread operator = cs := by
  by_cases hlength : cs.length = 1
  · obtain ⟨c, rfl⟩ := List.length_eq_one_iff.1 hlength
    exact spread_of_not_joins h.1
  · rw [ofMembers_of_length hlength, spread_junction]

theorem ofMembers_spread (h : c.IsFlat) (operator : Junction) :
    ofMembers operator (c.spread operator) = c := by
  by_cases hjoins : c.Joins operator
  · obtain ⟨members, rfl⟩ := hjoins
    rw [spread_junction, ofMembers_of_length h.1]
  · rw [spread_of_not_joins hjoins]
    rfl

mutual

/-- Normal forms are flat. -/
theorem isFlat_normalized : ∀ c : Criteria, c.normalized.IsFlat
  | .term _ _ => trivial
  | .range element (.both lower upper) inclusive => by
    have hnot : ∀ bounds, ¬ (Criteria.range element bounds inclusive).Joins .all := by
      rintro bounds ⟨members, hmembers⟩
      cases hmembers
    have htwo : 2 ≠ 1 := by decide
    exact ⟨htwo, hnot (.start lower), fun _ _ => Bounds.noConfusion,
      hnot (.stop upper), fun _ _ => Bounds.noConfusion, trivial⟩
  | .range _ (.start _) _ => fun _ _ => Bounds.noConfusion
  | .range _ (.stop _) _ => fun _ _ => Bounds.noConfusion
  | .junction operator members => isFlat_ofMembers (areFlat_normalizedMembers operator members)
  | .negation member => isFlat_normalized member

theorem areFlat_normalizedMembers (operator : Junction) :
    ∀ cs : List Criteria, AreFlat operator (normalizedMembers operator cs)
  | [] => trivial
  | c :: cs => areFlat_append (areFlat_spread (isFlat_normalized c) operator)
      (areFlat_normalizedMembers operator cs)

end

/-! ## Pairs -/

/-- The criteria joined two by two from the left. -/
def paired (operator : Junction) : Criteria → List Criteria → Criteria
  | first, [] => first
  | first, second :: rest => paired operator (.junction operator [first, second]) rest

/-- Pairs have the normal form of one junction. -/
theorem normalized_paired (operator : Junction) (first : Criteria) (rest : List Criteria) :
    (paired operator first rest).normalized =
      (Criteria.junction operator (first :: rest)).normalized := by
  induction rest generalizing first with
  | nil =>
    rw [paired, normalized, normalizedMembers, normalizedMembers, List.append_nil,
      ofMembers_spread (isFlat_normalized first)]
  | cons second rest ih =>
    have hpair := spread_ofMembers (areFlat_normalizedMembers operator [first, second])
    rw [paired, ih, normalized, normalized, normalizedMembers, normalized, hpair]
    simp only [normalizedMembers, List.append_nil, List.append_assoc]

/-- Pairs hold where the one junction does. -/
theorem holds_paired (m : Metadata) (operator : Junction) (first : Criteria)
    (rest : List Criteria) :
    (paired operator first rest).holds m =
      (Criteria.junction operator (first :: rest)).holds m := by
  induction rest generalizing first with
  | nil => cases operator <;> simp [paired, holds, allHold, anyHolds]
  | cons second rest ih =>
    rw [paired, ih]
    cases operator <;> simp [holds, allHold, anyHolds, Bool.and_assoc, Bool.or_assoc]

end ArchiveCatalog.Criteria
