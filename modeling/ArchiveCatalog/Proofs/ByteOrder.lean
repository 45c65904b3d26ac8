import Mathlib.Data.List.Basic

namespace ArchiveCatalog.Text

/-! # Texts in the order of their bytes

Texts are compared character by character here and byte by byte where they are stored. That is
the same order: of two characters, the encoding of the smaller one is smaller at a byte that both
have, be it the first one, which tells how many bytes there are, or a later one.
-/

/-- The bytes of a text in UTF-8. -/
def bytes (s : String) : List UInt8 := s.toUTF8.data.toList

theorem bytes_eq_flatMap (s : String) : bytes s = s.toList.flatMap String.utf8EncodeChar := by
  rw [bytes, String.toUTF8, ← String.utf8Encode_toList, List.utf8Encode,
    List.toList_data_toByteArray]

theorem ofNat_cons_lt_cons_iff {x y : Nat} (hx : x < 256) (hy : y < 256) {rest rest' : List UInt8} :
    UInt8.ofNat x :: rest < UInt8.ofNat y :: rest' ↔ x < y ∨ x = y ∧ rest < rest' := by
  rw [List.cons_lt_cons_iff, UInt8.lt_iff_toNat_lt, ← UInt8.toNat_inj, UInt8.toNat_ofNat_of_lt' hx,
    UInt8.toNat_ofNat_of_lt' hy]

/-- The smaller one of two numbers is smaller at the first digit to the base 64 at which they
differ. -/
theorem digits_lt {n m : Nat} (h : n < m) :
    n / 262144 < m / 262144 ∨ n / 262144 = m / 262144 ∧
      (n / 4096 % 64 < m / 4096 % 64 ∨ n / 4096 % 64 = m / 4096 % 64 ∧
        (n / 64 % 64 < m / 64 % 64 ∨ n / 64 % 64 = m / 64 % 64 ∧ n % 64 < m % 64)) := by
  have hstep : ∀ {n m : Nat}, n < m → n / 64 < m / 64 ∨ n / 64 = m / 64 ∧ n % 64 < m % 64 := by
    omega
  have hplaces : ∀ k : Nat, k / 4096 = k / 64 / 64 ∧ k / 262144 = k / 64 / 64 / 64 := by omega
  rw [(hplaces n).1, (hplaces n).2, (hplaces m).1, (hplaces m).2]
  rcases hstep h with hlt | ⟨heq, hlast⟩
  · rcases hstep hlt with hlt | ⟨heq, hlast⟩
    · rcases hstep hlt with hlt | ⟨heq, hlast⟩
      · exact .inl hlt
      · exact .inr ⟨heq, .inl hlast⟩
    · rw [heq]
      exact .inr ⟨rfl, .inr ⟨rfl, .inl hlast⟩⟩
  · rw [heq]
    exact .inr ⟨rfl, .inr ⟨rfl, .inr ⟨rfl, hlast⟩⟩⟩

/-- Encodings are in the order of their characters, whatever follows them. -/
theorem utf8EncodeChar_append_lt {c d : Char} (h : c < d) (rest rest' : List UInt8) :
    String.utf8EncodeChar c ++ rest < String.utf8EncodeChar d ++ rest' := by
  have hlt : c.val.toNat < d.val.toNat := h
  have hmax : d.val.toNat < 1114112 := by
    rcases d.valid with hd | hd
    · exact Nat.lt_trans hd (by decide)
    · exact hd.2
  simp only [String.utf8EncodeChar]
  generalize c.val.toNat = n at hlt
  generalize d.val.toNat = m at hlt hmax
  have hdigits := digits_lt hlt
  -- of the first of four bytes there are three bits left for the character, which are enough
  have hn : n / 262144 % 8 = n / 262144 := Nat.mod_eq_of_lt (by omega)
  have hm : m / 262144 % 8 = m / 262144 := Nat.mod_eq_of_lt (by omega)
  split_ifs <;>
    simp (disch := omega) only [List.cons_append, hn, hm, ofNat_cons_lt_cons_iff] <;>
    omega

theorem flatMap_utf8EncodeChar_lt {a b : List Char} (h : a < b) :
    a.flatMap String.utf8EncodeChar < b.flatMap String.utf8EncodeChar := by
  induction h with
  | @nil d b =>
    rw [List.flatMap_nil, List.flatMap_cons]
    cases hfirst : String.utf8EncodeChar d with
    | nil => exact absurd hfirst String.utf8EncodeChar_ne_nil
    | cons x rest => exact List.nil_lt_cons x _
  | @rel c a d b hlt =>
    rw [List.flatMap_cons, List.flatMap_cons]
    exact utf8EncodeChar_append_lt hlt _ _
  | @cons c a b _ ih =>
    rw [List.flatMap_cons, List.flatMap_cons]
    exact List.append_left_lt ih

theorem bytes_lt_bytes {s t : String} (h : s < t) : bytes s < bytes t := by
  rw [bytes_eq_flatMap, bytes_eq_flatMap]
  exact flatMap_utf8EncodeChar_lt (String.lt_iff.1 h)

/-- Texts are in the order of their bytes. -/
theorem bytes_lt_iff {s t : String} : bytes s < bytes t ↔ s < t := by
  refine ⟨?_, bytes_lt_bytes⟩
  intro hbytes
  by_contra hge
  by_cases hgt : t < s
  · exact List.lt_asymm (bytes_lt_bytes hgt) hbytes
  · obtain rfl := String.le_antisymm (String.not_lt.1 hgt) (String.not_lt.1 hge)
    exact List.lt_irrefl _ hbytes

theorem bytes_le_iff {s t : String} : bytes s ≤ bytes t ↔ s ≤ t := by
  rw [← List.not_lt, ← String.not_lt, bytes_lt_iff]

end ArchiveCatalog.Text
