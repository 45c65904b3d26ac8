import ArchiveCatalog.Inverted.Search
import ArchiveCatalog.Proofs.Metadata

namespace ArchiveCatalog.Inverted

/-! # Terms and their order

All values of all elements are terms of one field. The terms of an element lie between its
two bounds, and no term of another element does: up to the separator two names without it
are equal or differ before either ends. Within the bounds, terms are in the order of their
values.
-/

/-! ## Texts without a separator -/

/-- Between a text that ends in a separator and the same text that ends in the next character
there are only texts that go on after that separator. -/
theorem eq_of_between {sep after : Char} (hnext : ∀ c, c < after → c ≤ sep) {e f rest : List Char}
    (he : sep ∉ e) (hf : sep ∉ f) (hlower : ¬ f ++ sep :: rest < e ++ [sep])
    (hupper : f ++ sep :: rest < e ++ [after]) : f = e := by
  induction e generalizing f with
  | nil =>
    cases f with
    | nil => rfl
    | cons d f' =>
      -- the other name goes on, so its next character would lie between the two ends
      exfalso
      simp only [List.nil_append, List.cons_append, List.cons_lt_cons_iff, List.not_lt_nil,
        and_false, or_false] at hlower hupper
      have hsame : d = sep := Char.le_antisymm (hnext d hupper) (Char.not_lt.1 hlower)
      exact hf (hsame ▸ List.mem_cons_self)
  | cons c e' ih =>
    cases f with
    | nil =>
      -- the other name ends here, so the separator would occur in this one
      exfalso
      simp only [List.nil_append, List.cons_append, List.cons_lt_cons_iff, not_or] at hlower hupper
      rcases hupper with hlt | ⟨hsame, -⟩
      · exact hlower.1 hlt
      · exact he (hsame ▸ List.mem_cons_self)
    | cons d f' =>
      simp only [List.cons_append, List.cons_lt_cons_iff, not_or, not_and] at hlower hupper
      rcases hupper with hlt | ⟨rfl, hrest⟩
      · exact absurd hlt hlower.1
      · rw [ih (fun h => he (List.mem_cons_of_mem d h)) (fun h => hf (List.mem_cons_of_mem d h))
          (hlower.2 rfl) hrest]

theorem append_lt_append_iff (front : List Char) {a b : List Char} :
    front ++ a < front ++ b ↔ a < b := by
  induction front with
  | nil => rfl
  | cons c rest ih => simp [ih]

/-! ## Terms -/

/-- The name is told from the value by the first separator of a term. -/
def Separable (element : String) : Prop := '\x1f' ∉ element.toList

instance (element : String) : Decidable (Separable element) :=
  inferInstanceAs (Decidable ('\x1f' ∉ element.toList))

variable {element other value : String} {m : Metadata}

theorem toList_metadataTerm (element value : String) :
    (metadataTerm element value).toList = element.toList ++ '\x1f' :: value.toList := by
  simp [metadataTerm, separator]

theorem toList_elementLowerBound (element : String) :
    (elementLowerBound element).toList = element.toList ++ ['\x1f'] := by
  simp [elementLowerBound, separator]

theorem toList_elementUpperBound (element : String) :
    (elementUpperBound element).toList = element.toList ++ [' '] := by
  simp [elementUpperBound, afterSeparator]

theorem metadataTerm_lt_iff {w : String} :
    metadataTerm element value < metadataTerm element w ↔ value < w := by
  rw [String.lt_iff, String.lt_iff, toList_metadataTerm, toList_metadataTerm, append_lt_append_iff]
  simp

theorem metadataTerm_le_iff {w : String} :
    metadataTerm element value ≤ metadataTerm element w ↔ value ≤ w := by
  rw [← String.not_lt, ← String.not_lt, metadataTerm_lt_iff]

theorem metadataTerm_inj {w : String} (h : metadataTerm element value = metadataTerm element w) :
    value = w := by
  have htexts := congrArg String.toList h
  rw [toList_metadataTerm, toList_metadataTerm, List.append_cancel_left_eq, List.cons_eq_cons]
    at htexts
  exact String.toList_inj.1 htexts.2

/-- Terms of an element reach its lower bound. -/
theorem lowerBound_le_term (element value : String) :
    elementLowerBound element ≤ metadataTerm element value := by
  rw [← String.not_lt, String.lt_iff, toList_metadataTerm, toList_elementLowerBound,
    append_lt_append_iff]
  simp

/-- Terms of an element stay below its upper bound. -/
theorem term_lt_upperBound (element value : String) :
    metadataTerm element value < elementUpperBound element := by
  rw [String.lt_iff, toList_metadataTerm, toList_elementUpperBound, append_lt_append_iff]
  simp [List.cons_lt_cons_iff]

/-- What lies between the bounds of an element is a term of it. -/
theorem eq_of_within_bounds (he : Separable element) (ho : Separable other)
    (hlower : elementLowerBound element ≤ metadataTerm other value)
    (hupper : metadataTerm other value < elementUpperBound element) : other = element := by
  rw [← String.not_lt, String.lt_iff, toList_metadataTerm, toList_elementLowerBound] at hlower
  rw [String.lt_iff, toList_metadataTerm, toList_elementUpperBound] at hupper
  -- a blank follows the separator, with no character between them
  have hnext : ∀ c : Char, c < ' ' → c ≤ '\x1f' := by
    intro c hc
    rw [Char.lt_def] at hc
    rw [Char.le_def]
    have hval : ' '.val = 32 := rfl
    have hval' : '\x1f'.val = 31 := rfl
    rw [hval] at hc
    rw [hval']
    rw [UInt32.lt_iff_toNat_lt] at hc
    rw [UInt32.le_iff_toNat_le]
    exact Nat.le_of_lt_succ hc
  exact String.toList_inj.1 (eq_of_between hnext he ho hlower hupper)

theorem mem_metadataTerms {text : String} :
    text ∈ metadataTerms m ↔ ∃ e v, v ∈ m.values e ∧ text = metadataTerm e v := by
  have hpairs : metadataTerms m = m.pairs.map fun pair => metadataTerm pair.1 pair.2 := by
    unfold metadataTerms Metadata.pairs
    rw [List.map_flatMap]
    simp only [List.map_map]
    rfl
  rw [hpairs, List.mem_map]
  constructor
  · rintro ⟨⟨e, v⟩, hmem, rfl⟩
    exact ⟨e, v, Metadata.mem_pairs.1 hmem, rfl⟩
  · rintro ⟨e, v, hv, rfl⟩
    exact ⟨(e, v), Metadata.mem_pairs.2 hv, rfl⟩

/-- A test that only terms of an element can pass is a test of the values of the element. -/
theorem any_metadataTerms (hm : ∀ e, m.values e ≠ [] → Separable e) (he : Separable element)
    {test : String → Bool} (htest : ∀ text, test text = true →
      elementLowerBound element ≤ text ∧ text < elementUpperBound element) :
    (metadataTerms m).any test = (m.values element).any fun v => test (metadataTerm element v) := by
  rw [Bool.eq_iff_iff, List.any_eq_true, List.any_eq_true]
  -- a term that passes lies within the bounds, where all terms are of the element
  constructor
  · rintro ⟨text, hmem, hpass⟩
    rcases mem_metadataTerms.1 hmem with ⟨e, v, hv, rfl⟩
    rcases htest _ hpass with ⟨hlower, hupper⟩
    have hsame := eq_of_within_bounds he (hm e (List.ne_nil_of_mem hv)) hlower hupper
    subst hsame
    exact ⟨v, hv, hpass⟩
  · rintro ⟨v, hv, hpass⟩
    exact ⟨metadataTerm element v, mem_metadataTerms.2 ⟨element, v, hv, rfl⟩, hpass⟩

/-! ## Limits -/

/-- The lower limit of a range keeps out what is below the terms of the element. -/
theorem lowerBound_le_of_admitsAbove {bounds : Bounds} {inclusive : Bool} {text : String}
    (h : (Search.lowerLimit element bounds inclusive).admitsAbove text = true) :
    elementLowerBound element ≤ text := by
  have hreached : ∀ lower, elementLowerBound element ≤ metadataTerm element lower :=
    fun lower => lowerBound_le_term element lower
  unfold Search.lowerLimit at h
  split at h
  · simpa [Limit.admitsAbove] using h
  · rename_i lower _
    split at h
    · exact String.le_trans (hreached lower) (by simpa [Limit.admitsAbove] using h)
    · exact String.le_trans (hreached lower)
        (Std.le_of_lt (by simpa [Limit.admitsAbove] using h))

/-- The upper limit of a range keeps out what is above the terms of the element. -/
theorem lt_upperBound_of_admitsBelow {bounds : Bounds} {inclusive : Bool} {text : String}
    (h : (Search.upperLimit element bounds inclusive).admitsBelow text = true) :
    text < elementUpperBound element := by
  have hbelow : ∀ upper, metadataTerm element upper < elementUpperBound element :=
    fun upper => term_lt_upperBound element upper
  unfold Search.upperLimit at h
  split at h
  · simpa [Limit.admitsBelow] using h
  · rename_i upper _
    split at h
    · exact Std.lt_of_le_of_lt (by simpa [Limit.admitsBelow] using h) (hbelow upper)
    · exact String.lt_trans (by simpa [Limit.admitsBelow] using h) (hbelow upper)

/-- On the terms of an element the limits of a range are its bounds. -/
theorem limits_admit_term (bounds : Bounds) (inclusive : Bool) (v : String) :
    ((Search.lowerLimit element bounds inclusive).admitsAbove (metadataTerm element v) &&
      (Search.upperLimit element bounds inclusive).admitsBelow (metadataTerm element v)) =
      bounds.contains inclusive v := by
  have hlower := lowerBound_le_term element v
  have hupper := term_lt_upperBound element v
  -- an open end becomes a bound of the element, which all its terms respect
  cases bounds <;> cases inclusive <;>
    simp only [Search.lowerLimit, Search.upperLimit, Bounds.lower?, Bounds.upper?,
      Limit.admitsAbove, Limit.admitsBelow, Bounds.contains, Bounds.above, Bounds.below,
      metadataTerm_lt_iff, metadataTerm_le_iff, hlower, hupper, decide_true, Bool.true_and,
      Bool.and_true, if_true, Bool.false_eq_true, if_false]

end ArchiveCatalog.Inverted
