import Mathlib.Data.List.Basic
import ArchiveCatalog.Text.Offset

namespace ArchiveCatalog.Text

/-! # Cuts in range

A text can be cut at an offset exactly if the offset is the size of a part at its start. So cuts at
the sizes of such parts are in range and take the text apart as positions of characters do.
-/

@[simp]
theorem byteCount_nil : byteCount [] = 0 := rfl

@[simp]
theorem byteCount_cons (c : Char) (s : List Char) :
    byteCount (c :: s) = c.utf8Size + byteCount s := rfl

@[simp]
theorem byteCount_append (s t : List Char) : byteCount (s ++ t) = byteCount s + byteCount t := by
  induction s with
  | nil => rw [List.nil_append, byteCount_nil, Nat.zero_add]
  | cons c rest ih => rw [List.cons_append, byteCount_cons, byteCount_cons, ih, Nat.add_assoc]

/-- Characters of one byte are counted alike by bytes and by characters. -/
theorem byteCount_of_small {s : List Char} (h : ∀ c ∈ s, c.utf8Size = 1) :
    byteCount s = s.length := by
  induction s with
  | nil => rfl
  | cons c rest ih =>
    rw [byteCount_cons, h c List.mem_cons_self, ih fun d hd => h d (List.mem_cons_of_mem c hd),
      List.length_cons, Nat.add_comm]

/-- A text is cut into two parts at the size of the first, and nowhere else. -/
theorem cutAtOffset_eq_some_iff {s before after : List Char} {offset : Nat} :
    cutAtOffset s offset = some (before, after) ↔
      s = before ++ after ∧ offset = byteCount before := by
  induction s generalizing before offset with
  | nil =>
    by_cases hzero : offset = 0
    · subst hzero
      simp only [cutAtOffset, if_true, Option.some.injEq, Prod.mk.injEq]
      constructor
      · rintro ⟨rfl, rfl⟩
        exact ⟨rfl, rfl⟩
      · rintro ⟨hsplit, -⟩
        have hparts := List.append_eq_nil_iff.1 hsplit.symm
        exact ⟨hparts.1.symm, hparts.2.symm⟩
    · rw [cutAtOffset, if_neg hzero]
      constructor
      · intro h
        cases h
      · rintro ⟨hsplit, rfl⟩
        rw [(List.append_eq_nil_iff.1 hsplit.symm).1] at hzero
        exact absurd rfl hzero
  | cons c rest ih =>
    have hpos := c.utf8Size_pos
    by_cases hzero : offset = 0
    · subst hzero
      simp only [cutAtOffset, if_true, Option.some.injEq, Prod.mk.injEq]
      constructor
      · rintro ⟨rfl, rfl⟩
        exact ⟨rfl, rfl⟩
      · rintro ⟨hsplit, hsize⟩
        cases before with
        | nil => exact ⟨rfl, hsplit⟩
        | cons d before =>
          have hd := d.utf8Size_pos
          rw [byteCount_cons] at hsize
          omega
    · rw [cutAtOffset, if_neg hzero]
      constructor
      · intro h
        split at h
        · rename_i hle
          rcases Option.map_eq_some_iff.1 h with ⟨⟨front, back⟩, hcut, hparts⟩
          cases hparts
          rcases ih.1 hcut with ⟨rfl, hsize⟩
          refine ⟨rfl, ?_⟩
          rw [byteCount_cons]
          omega
        · cases h
      · rintro ⟨hsplit, rfl⟩
        cases before with
        | nil => exact absurd rfl hzero
        | cons d before =>
          cases hsplit
          rw [byteCount_cons, if_pos (Nat.le_add_right _ _), Nat.add_sub_cancel_left,
            ih.2 ⟨rfl, rfl⟩, Option.map_some]

theorem isBoundary_iff {s : List Char} {offset : Nat} :
    isBoundary s offset = true ↔
      ∃ before after, s = before ++ after ∧ offset = byteCount before := by
  simp only [isBoundary, Option.isSome_iff_exists, Prod.exists, cutAtOffset_eq_some_iff]

theorem sliceFrom?_append (before after : List Char) :
    sliceFrom? (byteCount before) (before ++ after) = some after := by
  rw [sliceFrom?, cutAtOffset_eq_some_iff.2 ⟨rfl, rfl⟩, Option.map_some]

theorem slice?_append (before inner after : List Char) :
    slice? (byteCount before) (byteCount (before ++ inner)) (before ++ (inner ++ after)) =
      some inner := by
  rw [slice?, cutAtOffset_eq_some_iff.2 ⟨(List.append_assoc before inner after).symm, rfl⟩,
    Option.bind_some]
  exact sliceFrom?_append before inner

/-! ## Offsets of positions -/

/-- The offset of the character at a position. -/
def offsetAt (s : List Char) (position : Nat) : Nat := byteCount (s.take position)

variable {s : List Char}

theorem isBoundary_offsetAt (s : List Char) (position : Nat) :
    isBoundary s (offsetAt s position) = true :=
  isBoundary_iff.2 ⟨_, _, (List.take_append_drop position s).symm, rfl⟩

theorem sliceFrom?_offsetAt (s : List Char) (position : Nat) :
    sliceFrom? (offsetAt s position) s = some (s.drop position) := by
  have hcut := sliceFrom?_append (s.take position) (s.drop position)
  rwa [List.take_append_drop] at hcut

/-- The text between two positions that are in order. -/
theorem slice?_offsetAt {start stop : Nat} (h : start ≤ stop) (s : List Char) :
    slice? (offsetAt s start) (offsetAt s stop) s = some ((s.take stop).drop start) := by
  have hfront : s.take start ++ (s.take stop).drop start = s.take stop := by
    have hsplit := List.take_append_drop start (s.take stop)
    rwa [List.take_take, Nat.min_eq_left h] at hsplit
  have hcut := slice?_append (s.take start) ((s.take stop).drop start) (s.drop stop)
  rwa [← List.append_assoc, hfront, List.take_append_drop] at hcut

/-- Behind characters of one byte the offset has grown by their number. -/
theorem offsetAt_add {position count : Nat} {word rest : List Char}
    (hword : s.drop position = word ++ rest) (hcount : word.length = count)
    (hsmall : ∀ c ∈ word, c.utf8Size = 1) :
    offsetAt s (position + count) = offsetAt s position + count := by
  rw [offsetAt, List.take_add, hword, ← hcount, List.take_left, byteCount_append,
    byteCount_of_small hsmall, offsetAt]

theorem offsetAt_le {start stop : Nat} (h : start ≤ stop) (s : List Char) :
    offsetAt s start ≤ offsetAt s stop := by
  rcases Nat.le.dest h with ⟨more, rfl⟩
  rw [offsetAt, offsetAt, List.take_add, byteCount_append]
  exact Nat.le_add_right _ _

end ArchiveCatalog.Text
