import ArchiveCatalog.Proofs.ByteOrder
import ArchiveCatalog.Proofs.Inverted.Terms

namespace ArchiveCatalog.Inverted

open Text (bytes bytes_le_iff bytes_lt_iff)

/-! # Elements kept apart

The terms of all elements stand in one list in the order of their bytes. An element has a stretch
of it to itself, in which its terms are in the order of their values, so what is looked for in a
range of that stretch is looked for in a range of values. That takes no more than names without
the separator: one name may begin with another one, and values may hold the separator.
-/

variable {element other : String}

/-- A term tells its element and its value. -/
theorem metadataTerm_eq_iff (he : Separable element) (ho : Separable other) {v w : String} :
    metadataTerm element v = metadataTerm other w ↔ element = other ∧ v = w := by
  constructor
  · intro h
    have hlower := h ▸ lowerBound_le_term element v
    have hupper := h ▸ term_lt_upperBound element v
    obtain rfl := eq_of_within_bounds he ho hlower hupper
    exact ⟨rfl, metadataTerm_inj h⟩
  · rintro ⟨rfl, rfl⟩
    rfl

/-- The terms within the bounds of an element are its own. -/
theorem within_bounds_iff (he : Separable element) (ho : Separable other) (w : String) :
    elementLowerBound element ≤ metadataTerm other w ∧
      metadataTerm other w < elementUpperBound element ↔ other = element := by
  constructor
  · rintro ⟨hlower, hupper⟩
    exact eq_of_within_bounds he ho hlower hupper
  · rintro rfl
    exact ⟨lowerBound_le_term other w, term_lt_upperBound other w⟩

/-- The limits of a range admit the terms of its element with a value in the range. -/
theorem limits_admit_iff (he : Separable element) (ho : Separable other) (bounds : Bounds)
    (inclusive : Bool) (w : String) :
    ((Search.lowerLimit element bounds inclusive).admitsAbove (metadataTerm other w) &&
        (Search.upperLimit element bounds inclusive).admitsBelow (metadataTerm other w)) = true ↔
      other = element ∧ bounds.contains inclusive w = true := by
  constructor
  · intro h
    have hlimits := Bool.and_eq_true_iff.1 h
    -- the limits lie within the bounds of the element, so the term is one of its own
    obtain rfl := eq_of_within_bounds he ho (lowerBound_le_of_admitsAbove hlimits.1)
      (lt_upperBound_of_admitsBelow hlimits.2)
    exact ⟨rfl, limits_admit_term bounds inclusive w ▸ h⟩
  · rintro ⟨rfl, h⟩
    rw [limits_admit_term, h]

/-- Terms keep the values of an element apart and in order, and apart from those of another. -/
structure KeepsApart (element other : String) : Prop where
  /-- Values are told apart, and so are elements. -/
  injective (v w : String) :
    metadataTerm element v = metadataTerm other w → element = other ∧ v = w
  /-- The terms of an element are in the order of the bytes of their values. -/
  ordered (v w : String) :
    bytes (metadataTerm element v) ≤ bytes (metadataTerm element w) ↔ bytes v ≤ bytes w
  /-- The bounds of an element enclose its terms and no others. -/
  enclosed (w : String) :
    bytes (elementLowerBound element) ≤ bytes (metadataTerm other w) ∧
      bytes (metadataTerm other w) < bytes (elementUpperBound element) ↔ other = element
  /-- A range of values is looked for between two limits, which admit the terms of the element
  with a value in the range and no others. -/
  ranged (bounds : Bounds) (inclusive : Bool) : ∃ lower upper,
    Search.ofCriteria (.range element bounds inclusive) = .range .metadata lower upper ∧
      ∀ w, (lower.admitsAbove (metadataTerm other w) && upper.admitsBelow (metadataTerm other w)) =
        true ↔ other = element ∧ bounds.contains inclusive w = true

/-- Elements whose names hold no separator are kept apart, whatever their values are. -/
theorem terms_keep_elements_apart (he : Separable element) (ho : Separable other) :
    KeepsApart element other where
  injective v w := (metadataTerm_eq_iff he ho).1
  ordered v w := by rw [bytes_le_iff, bytes_le_iff, metadataTerm_le_iff]
  enclosed w := by
    rw [bytes_le_iff, bytes_lt_iff]
    exact within_bounds_iff he ho w
  ranged bounds inclusive :=
    ⟨_, _, by rw [Search.ofCriteria], limits_admit_iff he ho bounds inclusive⟩

/-- A name that begins with the other one and goes on below the separator. -/
theorem depth_kept_apart :
    Separable "Depth" ∧ Separable "Depth\x01" ∧ KeepsApart "Depth" "Depth\x01" :=
  ⟨by decide, by decide, terms_keep_elements_apart (by decide) (by decide)⟩

end ArchiveCatalog.Inverted
