import ArchiveCatalog.Proofs.Dsl.Keywords

namespace ArchiveCatalog.Dsl

/-! # Where scans stop

A keyword is found behind a blank or at the start of a text, and it is spelled with ASCII letters,
none of which is a blank. So of two keywords that are found neither begins inside the other, and
keywords and parentheses have as many bytes as characters.
-/

/-! ## Letters -/

theorem isUpper_iff {c : Char} : c.isUpper = true ↔ 65 ≤ c.toNat ∧ c.toNat ≤ 90 :=
  decide_eq_true_iff.trans (and_congr UInt32.le_iff_toNat_le UInt32.le_iff_toNat_le)

theorem isLower_iff {c : Char} : c.isLower = true ↔ 97 ≤ c.toNat ∧ c.toNat ≤ 122 :=
  (Bool.and_eq_true_iff.trans (and_congr decide_eq_true_iff decide_eq_true_iff)).trans
    (and_congr UInt32.le_iff_toNat_le UInt32.le_iff_toNat_le)

theorem isAlpha_iff {c : Char} : c.isAlpha = true ↔ c.isUpper = true ∨ c.isLower = true :=
  Bool.or_eq_true_iff

/-- A capital is taken to a small letter. -/
theorem isLower_toLower {c : Char} (h : c.isUpper = true) : c.toLower.isLower = true := by
  have hval : c.toLower.val = c.val + 32 := congrArg Char.val (dif_pos (of_decide_eq_true h))
  have hnat : c.toLower.toNat = (c.toNat + 32) % 4294967296 :=
    (congrArg UInt32.toNat hval).trans (UInt32.toNat_add c.val 32)
  rw [isUpper_iff] at h
  rw [isLower_iff, hnat]
  omega

/-- A character that is a capital when its case is ignored is an ASCII letter. -/
theorem isAlpha_of_toLower_eq {c k : Char} (hk : k.isUpper = true) (h : c.toLower = k.toLower) :
    c.isAlpha = true := by
  rw [isAlpha_iff]
  by_cases hc : c.isUpper = true
  · exact .inl hc
  · have hsame : c.toLower = c := dif_neg fun hcapital => hc (decide_eq_true hcapital)
    right
    rw [← hsame, h]
    exact isLower_toLower hk

theorem utf8Size_of_isAlpha {c : Char} (h : c.isAlpha = true) : c.utf8Size = 1 := by
  have hnat : c.val.toNat = c.toNat := rfl
  have hbound : (127 : UInt32).toNat = 127 := rfl
  rw [isAlpha_iff, isUpper_iff, isLower_iff] at h
  rw [Char.utf8Size_eq_one_iff, UInt32.le_iff_toNat_le, hnat, hbound]
  omega

theorem not_isBlank_of_isAlpha {c : Char} (h : c.isAlpha = true) : Text.isBlank c = false := by
  rw [isAlpha_iff, isUpper_iff, isLower_iff] at h
  simp only [Text.isBlank, Bool.or_eq_false_iff, Bool.and_eq_false_iff, beq_eq_false_iff_ne,
    decide_eq_false_iff_not]
  omega

/-! ## Keywords -/

/-- What keywords are spelled with. -/
def IsCapitals (keyword : List Char) : Prop := ∀ k ∈ keyword, k.isUpper = true

instance (keyword : List Char) : Decidable (IsCapitals keyword) :=
  List.decidableBAll (fun k : Char => k.isUpper = true) keyword

variable {keyword word s : List Char} {quoted boundary : Bool} {n : Nat}

theorem length_of_sameFolded {a b : List Char} (h : Text.sameFolded a b = true) :
    a.length = b.length := by
  have hmap := congrArg List.length (beq_iff_eq.1 h)
  rwa [List.length_map, List.length_map] at hmap

theorem isAlpha_of_sameFolded (hkeyword : IsCapitals keyword)
    (h : Text.sameFolded word keyword = true) : ∀ c ∈ word, c.isAlpha = true := by
  intro c hc
  have hmem : c.toLower ∈ keyword.map Char.toLower := by
    rw [← beq_iff_eq.1 h]
    exact List.mem_map_of_mem hc
  rcases List.mem_map.1 hmem with ⟨k, hk, hlower⟩
  exact isAlpha_of_toLower_eq (hkeyword k hk) hlower.symm

/-- A keyword at the start of a text is a word of as many letters, in some case. -/
theorem word_of_startsWithKeyword (hkeyword : IsCapitals keyword)
    (h : startsWithKeyword keyword s = true) :
    ∃ word rest, s = word ++ rest ∧ word.length = keyword.length ∧
      (∀ c ∈ word, c.isAlpha = true) ∧ Text.sameFolded word keyword = true := by
  rw [startsWithKeyword, Bool.and_eq_true] at h
  exact ⟨s.take keyword.length, s.drop keyword.length, (List.take_append_drop _ s).symm,
    length_of_sameFolded h.1, isAlpha_of_sameFolded hkeyword h.1, h.1⟩

theorem sameFolded_take_iff : Text.sameFolded (s.take keyword.length) keyword = true ↔
    (s.map Char.toLower).take keyword.length = keyword.map Char.toLower := by
  rw [Text.sameFolded, beq_iff_eq, List.map_take]

/-- A text does not begin with two keywords, unless one is the beginning of the other. -/
theorem not_startsWith_both {other : List Char} (hle : keyword.length ≤ other.length)
    (hdiffer : (other.map Char.toLower).take keyword.length ≠ keyword.map Char.toLower)
    (hother : startsWithKeyword other s = true) : startsWithKeyword keyword s = false := by
  rw [startsWithKeyword, Bool.and_eq_true] at hother
  cases h : startsWithKeyword keyword s with
  | false => rfl
  | true =>
    rw [startsWithKeyword, Bool.and_eq_true] at h
    have htake := sameFolded_take_iff.1 h.1
    rw [← sameFolded_take_iff.1 hother.1, List.take_take, Nat.min_eq_left hle] at hdiffer
    exact absurd htake hdiffer

/-- A keyword is found at the first character, which must be a boundary, or behind it. -/
theorem of_findKeyword_cons {c : Char} {rest : List Char}
    (h : findKeyword keyword quoted boundary (c :: rest) = some n) :
    (n = 0 ∧ boundary = true ∧ startsWithKeyword keyword (c :: rest) = true) ∨
      ∃ m quoted, n = m + 1 ∧ findKeyword keyword quoted (Text.isBlank c) rest = some m := by
  rw [findKeyword] at h
  generalize (if c = Text.quoteMark then !quoted else quoted) = quoted at h
  split at h
  · rename_i hit
    cases h
    simp only [Bool.and_eq_true] at hit
    exact .inl ⟨rfl, hit.1.2, hit.2⟩
  · rcases Option.map_eq_some_iff.1 h with ⟨m, hfound, rfl⟩
    exact .inr ⟨m, quoted, rfl, hfound⟩

theorem startsWithKeyword_of_findKeyword (h : findKeyword keyword quoted boundary s = some n) :
    startsWithKeyword keyword (s.drop n) = true := by
  induction s generalizing quoted boundary n with
  | nil => cases h
  | cons c rest ih =>
    rcases of_findKeyword_cons h with ⟨rfl, -, hstarts⟩ | ⟨m, _, rfl, hfound⟩
    · exact hstarts
    · exact ih hfound

/-- A blank stands before a keyword that is found behind the start. -/
theorem blank_of_findKeyword (h : findKeyword keyword quoted boundary s = some (n + 1)) :
    ∃ c, s[n]? = some c ∧ Text.isBlank c = true := by
  induction s generalizing quoted boundary n with
  | nil => cases h
  | cons c rest ih =>
    rcases of_findKeyword_cons h with ⟨hzero, -⟩ | ⟨m, _, hsucc, hfound⟩
    · cases hzero
    · cases hsucc
      cases n with
      | succ n => exact ih hfound
      | zero =>
        cases rest with
        | nil => cases hfound
        | cons d rest =>
          rcases of_findKeyword_cons hfound with ⟨-, hblank, -⟩ | ⟨m, _, hsucc, -⟩
          · exact ⟨c, rfl, hblank⟩
          · cases hsucc

/-- A keyword does not begin inside another, nor right behind it. -/
theorem findKeyword_outside {other : List Char} {p : Nat} (hother : IsCapitals other)
    (hthere : startsWithKeyword other (s.drop p) = true)
    (h : findKeyword keyword quoted boundary s = some n) : n ≤ p ∨ p + other.length < n := by
  cases n with
  | zero => exact .inl (Nat.zero_le p)
  | succ m =>
    rcases blank_of_findKeyword h with ⟨c, hc, hblank⟩
    rcases word_of_startsWithKeyword hother hthere with ⟨word, rest, hsplit, hlength, hletters, -⟩
    by_contra hinside
    have hlt : m - p < word.length := by omega
    have hm : p + (m - p) = m := by omega
    -- so the blank would be a letter of the other keyword
    have hletter : word[m - p]? = some c := by
      rw [← hc, ← hm, ← List.getElem?_drop, hsplit, List.getElem?_append_left (by omega), hm]
    have hmem : c ∈ word := List.mem_of_getElem? hletter
    rw [not_isBlank_of_isAlpha (hletters c hmem)] at hblank
    cases hblank

/-- In a selection FROM stands behind SELECT. -/
theorem select_before_from (hselect : startsWithKeyword "SELECT".toList s = true)
    (h : findKeyword "FROM".toList quoted boundary s = some n) : "SELECT".toList.length < n := by
  rcases findKeyword_outside (p := 0) (by decide) hselect h with hzero | hbehind
  · rw [Nat.le_zero.1 hzero] at h
    have hstart := startsWithKeyword_of_findKeyword h
    rw [List.drop_zero, not_startsWith_both (by decide) (by decide) hselect] at hstart
    cases hstart
  · rwa [Nat.zero_add] at hbehind

/-- A WHERE behind FROM stands behind its end. -/
theorem from_before_where {quoted' boundary' : Bool} {fromAt whereAt : Nat}
    (hfrom : findKeyword "FROM".toList quoted boundary s = some fromAt)
    (hwhere : findKeyword "WHERE".toList quoted' boundary' s = some whereAt)
    (hbehind : fromAt < whereAt) : fromAt + "FROM".toList.length ≤ whereAt := by
  rcases findKeyword_outside (by decide) (startsWithKeyword_of_findKeyword hfrom) hwhere with
    hbefore | hafter
  · exact absurd hbehind (Nat.not_lt.2 hbefore)
  · exact Nat.le_of_lt hafter

/-! ## Parentheses -/

/-- The scan for a closing parenthesis stops at one. -/
theorem getElem?_closingParen {depth : Nat} (h : closingParen depth quoted s = some n) :
    s[n]? = some ')' := by
  have past {c : Char} {rest : List Char} {found : Option Nat}
      (ih : ∀ {m : Nat}, found = some m → rest[m]? = some ')') {n : Nat}
      (h : found.map (· + 1) = some n) : (c :: rest)[n]? = some ')' := by
    rcases Option.map_eq_some_iff.1 h with ⟨m, hfound, rfl⟩
    exact ih hfound
  fun_induction closingParen depth quoted s generalizing n with
  | case1 => cases h
  | case2 _ _ _ ih => exact past ih h
  | case3 _ _ _ _ _ _ ih => exact past ih h
  | case4 => cases h
  | case5 _ _ _ _ _ hclose =>
    cases h
    rw [List.getElem?_cons_zero, hclose.1]
  | case6 _ _ _ _ _ _ _ ih => exact past ih h
  | case7 _ _ _ _ _ _ _ ih => exact past ih h

/-- What the parenthesis at the start and the one that closes it enclose. -/
theorem split_of_closingParen (h : closingParen 0 false ('(' :: s) = some n) :
    ∃ arguments rest, s = arguments ++ ')' :: rest ∧ n = arguments.length + 1 := by
  have hparen := getElem?_closingParen h
  cases n with
  | zero => cases hparen
  | succ m =>
    rcases List.getElem?_eq_some_iff.1 hparen with ⟨hlt, hget⟩
    have hm : m < s.length := Nat.lt_of_succ_lt_succ hlt
    refine ⟨s.take m, s.drop (m + 1), ?_, ?_⟩
    · rw [← hget, List.getElem_cons_succ, ← List.drop_eq_getElem_cons hm, List.take_append_drop]
    · rw [List.length_take_of_le (Nat.le_of_lt hm)]

end ArchiveCatalog.Dsl
