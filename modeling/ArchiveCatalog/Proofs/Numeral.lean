import ArchiveCatalog.Text.Blank
import ArchiveCatalog.Text.Numeral

namespace ArchiveCatalog.Text

/-! # Numbers read back

A number that fits 64 bits is read back from its spelling, so different numbers are spelled
differently.
-/

theorem digitsValue_eq {s : List Char} (h : ∀ c ∈ s, c.isDigit = true) (acc : Nat) :
    digitsValue acc s = some (Nat.ofDigitChars 10 s acc) := by
  induction s generalizing acc with
  | nil => rfl
  | cons c rest ih =>
    rw [digitsValue, if_pos (h c List.mem_cons_self),
      ih fun d hd => h d (List.mem_cons_of_mem c hd)]
    rw [Nat.ofDigitChars_cons, Nat.mul_comm]
    rfl

theorem readNat?_toDigits (n : Nat) : readNat? (Nat.toDigits 10 n) = some n := by
  have hdigits : ∀ c ∈ Nat.toDigits 10 n, c.isDigit = true := fun c hc =>
    Nat.isDigit_of_mem_toDigits (by decide) (by decide) hc
  have hvalue : digitsValue 0 (Nat.toDigits 10 n) = some n := by
    rw [digitsValue_eq hdigits, Nat.ofDigitChars_ten_toDigits]
  cases hs : Nat.toDigits 10 n with
  | nil => exact absurd hs Nat.toDigits_ne_nil
  | cons c rest => rw [hs] at hvalue; exact hvalue

theorem isDigit_of_toDigits_eq {n : Nat} {c : Char} {rest : List Char}
    (h : Nat.toDigits 10 n = c :: rest) : c.isDigit = true :=
  Nat.isDigit_of_mem_toDigits (by decide) (by decide) (h ▸ List.mem_cons_self)

theorem readInt?_toDigits (n : Nat) : readInt? (Nat.toDigits 10 n) = some (n : Int) := by
  have hvalue := readNat?_toDigits n
  unfold readInt?
  -- digits begin with no sign
  split
  · rename_i rest hs
    exact absurd (isDigit_of_toDigits_eq hs) (by decide)
  · rename_i rest hs
    exact absurd (isDigit_of_toDigits_eq hs) (by decide)
  · rw [hvalue]
    rfl

theorem readInt?_toString (i : Int) : readInt? (toString i).toList = some i := by
  cases i with
  | ofNat n =>
    have hspelled : (toString (Int.ofNat n)).toList = Nat.toDigits 10 n := by
      have hsame : toString (Int.ofNat n) = toString n := rfl
      rw [hsame, Nat.toString_eq_repr, Nat.toList_repr]
    rw [hspelled]
    exact readInt?_toDigits n
  | negSucc n =>
    have hspelled : (toString (Int.negSucc n)).toList = '-' :: Nat.toDigits 10 (n + 1) := by
      have hsame : toString (Int.negSucc n) = "-" ++ Nat.repr (n + 1) := rfl
      rw [hsame, String.toList_append, Nat.toList_repr]
      rfl
    rw [hspelled, readInt?, readNat?_toDigits]
    rfl

/-- A number that fits is read back from its spelling. -/
theorem readInt64?_toString {i : Int} (h : fitsInt64 i = true) :
    readInt64? (toString i).toList = some i := by
  rw [readInt64?, readInt?_toString, Option.filter_some, if_pos h]

theorem not_isBlank_of_isDigit {c : Char} (h : c.isDigit = true) : isBlank c = false := by
  simp only [Char.isDigit, Bool.and_eq_true, decide_eq_true_eq, ge_iff_le,
    UInt32.le_iff_toNat_le] at h
  have hlow : 48 ≤ c.toNat := h.1
  have hhigh : c.toNat ≤ 57 := h.2
  simp [isBlank]
  omega

/-- A number is spelled with digits and a sign. -/
theorem of_mem_toString {i : Int} {c : Char} (h : c ∈ (toString i).toList) :
    c = '-' ∨ c.isDigit = true := by
  have hdigit : ∀ n : Nat, c ∈ Nat.toDigits 10 n → c.isDigit = true := fun n hc =>
    Nat.isDigit_of_mem_toDigits (by decide) (by decide) hc
  cases i with
  | ofNat n =>
    have hsame : toString (Int.ofNat n) = toString n := rfl
    rw [hsame, Nat.toString_eq_repr, Nat.toList_repr] at h
    exact Or.inr (hdigit n h)
  | negSucc n =>
    have hsame : toString (Int.negSucc n) = "-" ++ Nat.repr (n + 1) := rfl
    rw [hsame, String.toList_append, Nat.toList_repr, List.mem_append] at h
    rcases h with h | h
    · exact Or.inl (List.mem_singleton.1 h)
    · exact Or.inr (hdigit (n + 1) h)

end ArchiveCatalog.Text
