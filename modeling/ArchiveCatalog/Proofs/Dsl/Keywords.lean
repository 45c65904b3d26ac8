import ArchiveCatalog.Dsl.Statement
import ArchiveCatalog.Proofs.Text

namespace ArchiveCatalog.Dsl

/-! # Positions in a statement

A search for a keyword passes over every word before it that is not the keyword itself in some
letter case, and the search for a closing parenthesis passes over everything in quotes.
-/

/-! ## Keywords -/

theorem startsWithKeyword_append (keyword rest : List Char) :
    startsWithKeyword keyword (keyword ++ rest) = endsKeyword rest := by
  rw [startsWithKeyword, List.take_left, List.drop_left, Text.sameFolded, beq_self_eq_true,
    Bool.true_and]

/-- A character inside of a word: no blank, quote or opening bracket. -/
def isWordChar (c : Char) : Bool :=
  !Text.isBlank c && c != Text.quoteMark && c != '(' && c != '\x7b'

theorem not_endsKeyword_cons {c : Char} (h : isWordChar c = true) (rest : List Char) :
    endsKeyword (c :: rest) = false := by
  simp only [isWordChar, Bool.and_eq_true, Bool.not_eq_true', bne_iff_ne] at h
  simp only [endsKeyword, Bool.or_eq_false_iff, beq_eq_false_iff_ne]
  exact ⟨⟨h.1.1.1, h.1.2⟩, h.2⟩

/-- The end of the text or a space. -/
def EndsWord (rest : List Char) : Prop := rest = [] ∨ ∃ more, rest = ' ' :: more

/-- A word that starts with a keyword is the keyword. -/
theorem sameFolded_of_startsWithKeyword {keyword word rest : List Char}
    (hkeyword : ∀ k ∈ keyword, k.toLower ≠ ' ') (hword : ∀ c ∈ word, isWordChar c = true)
    (hrest : EndsWord rest) (h : startsWithKeyword keyword (word ++ rest) = true) :
    Text.sameFolded word keyword = true := by
  induction keyword generalizing word with
  | nil =>
    cases word with
    | nil => rfl
    | cons c tail =>
      have hends := not_endsKeyword_cons (hword c List.mem_cons_self) (tail ++ rest)
      rw [startsWithKeyword, List.cons_append, List.length_nil, List.drop_zero, hends,
        Bool.and_false] at h
      cases h
  | cons k keyword ih =>
    have hk := hkeyword k List.mem_cons_self
    cases word with
    | nil =>
      -- what ends the word is a space, which is no character of a keyword
      rcases hrest with rfl | ⟨more, rfl⟩
      · cases h
      · simp only [startsWithKeyword, Text.sameFolded, List.nil_append, List.length_cons,
          List.take_succ_cons, List.map_cons, List.cons_beq_cons, Bool.and_eq_true,
          beq_iff_eq] at h
        exact absurd h.1.1.symm hk
    | cons c tail =>
      simp only [startsWithKeyword, Text.sameFolded, List.cons_append, List.length_cons,
        List.take_succ_cons, List.drop_succ_cons, List.map_cons, List.cons_beq_cons,
        Bool.and_eq_true] at h
      have hstarts : startsWithKeyword keyword (tail ++ rest) = true := by
        simp only [startsWithKeyword, Text.sameFolded, Bool.and_eq_true]
        exact ⟨h.1.2, h.2⟩
      have htail := ih (fun k' hk' => hkeyword k' (List.mem_cons_of_mem k hk'))
        (fun d hd => hword d (List.mem_cons_of_mem c hd)) hstarts
      simp only [Text.sameFolded, List.map_cons, List.cons_beq_cons, Bool.and_eq_true]
      exact ⟨h.1.1, htail⟩

/-! ## Looking for a keyword -/

/-- What can be looked for: capitals and no space. -/
structure IsKeyword (keyword : List Char) : Prop where
  ne_nil : keyword ≠ []
  no_space : ∀ k ∈ keyword, k.toLower ≠ ' '
  no_quote : ∀ k ∈ keyword, k ≠ Text.quoteMark

variable {keyword word rest : List Char}

theorem IsKeyword.not_startsWith (h : IsKeyword keyword) (hword : ∀ c ∈ word, isWordChar c = true)
    (hrest : EndsWord rest) (hother : Text.sameFolded word keyword = false) :
    startsWithKeyword keyword (word ++ rest) = false := by
  cases hstarts : startsWithKeyword keyword (word ++ rest) with
  | false => rfl
  | true =>
    rw [sameFolded_of_startsWithKeyword h.no_space hword hrest hstarts] at hother
    cases hother

/-- A character at which no keyword begins is passed over. -/
theorem findKeyword_step {c : Char} {boundary : Bool} (hc : c ≠ Text.quoteMark)
    (hno : boundary = true → startsWithKeyword keyword (c :: rest) = false) :
    findKeyword keyword false boundary (c :: rest) =
      (findKeyword keyword false (Text.isBlank c) rest).map (· + 1) := by
  have hmiss : (!false && boundary && startsWithKeyword keyword (c :: rest)) = false := by
    cases boundary with
    | false => rfl
    | true => exact hno rfl
  rw [findKeyword]
  simp only [hc, if_false, hmiss, Bool.false_eq_true]

/-- Inside of a word no keyword begins. -/
theorem findKeyword_inside (hword : ∀ c ∈ word, isWordChar c = true) (rest : List Char) :
    findKeyword keyword false false (word ++ rest) =
      (findKeyword keyword false false rest).map (· + word.length) := by
  induction word with
  | nil => simp
  | cons c tail ih =>
    have hc := hword c List.mem_cons_self
    simp only [isWordChar, Bool.and_eq_true, Bool.not_eq_true', bne_iff_ne] at hc
    have htail := ih fun d hd => hword d (List.mem_cons_of_mem c hd)
    rw [List.cons_append, findKeyword_step hc.1.1.2 Bool.noConfusion, hc.1.1.1, htail,
      Option.map_map]
    rfl

/-- A word that is not the keyword is passed over, with whatever ends it. -/
theorem findKeyword_word {boundary : Bool} (h : IsKeyword keyword)
    (hword : ∀ c ∈ word, isWordChar c = true) (hne : word ≠ []) (hrest : EndsWord rest)
    (hother : Text.sameFolded word keyword = false) :
    findKeyword keyword false boundary (word ++ rest) =
      (findKeyword keyword false false rest).map (· + word.length) := by
  cases word with
  | nil => exact absurd rfl hne
  | cons c tail =>
    have hc := hword c List.mem_cons_self
    have hstart := h.not_startsWith hword hrest hother
    simp only [isWordChar, Bool.and_eq_true, Bool.not_eq_true', bne_iff_ne] at hc
    have htail : findKeyword keyword false false (tail ++ rest) = _ :=
      findKeyword_inside (fun d hd => hword d (List.mem_cons_of_mem c hd)) rest
    rw [List.cons_append] at hstart
    rw [List.cons_append, findKeyword_step hc.1.1.2 fun _ => hstart, hc.1.1.1, htail,
      Option.map_map]
    rfl

theorem findKeyword_space {boundary : Bool} (h : IsKeyword keyword) (rest : List Char) :
    findKeyword keyword false boundary (' ' :: rest) =
      (findKeyword keyword false true rest).map (· + 1) := by
  have hquote : ' ' ≠ Text.quoteMark := by decide
  have hother : Text.sameFolded [] keyword = false := by
    cases keyword with
    | nil => exact absurd rfl h.ne_nil
    | cons k tail => rfl
  have hnone : ∀ c ∈ ([] : List Char), isWordChar c = true := fun _ hc => absurd hc List.not_mem_nil
  have hstart := h.not_startsWith hnone (Or.inr ⟨rest, rfl⟩) hother
  exact findKeyword_step hquote fun _ => hstart

/-- The search goes on behind the space after a word that is not the keyword. -/
theorem findKeyword_past {boundary : Bool} (h : IsKeyword keyword)
    (hword : ∀ c ∈ word, isWordChar c = true) (hother : Text.sameFolded word keyword = false)
    (rest : List Char) :
    findKeyword keyword false boundary (word ++ ' ' :: rest) =
      (findKeyword keyword false true rest).map (· + (word.length + 1)) := by
  cases word with
  | nil => exact findKeyword_space h rest
  | cons c tail =>
    rw [findKeyword_word h hword (List.cons_ne_nil c tail) (Or.inr ⟨rest, rfl⟩) hother,
      findKeyword_space h rest, Option.map_map]
    apply congrArg (Option.map · _)
    funext n
    simp only [Function.comp_apply, List.length_cons]
    omega

theorem findKeyword_none {boundary : Bool} (h : IsKeyword keyword)
    (hword : ∀ c ∈ word, isWordChar c = true) (hother : Text.sameFolded word keyword = false) :
    findKeyword keyword false boundary word = none := by
  cases word with
  | nil => rfl
  | cons c tail =>
    have hall : findKeyword keyword false boundary (c :: tail ++ []) = _ :=
      findKeyword_word h hword (List.cons_ne_nil c tail) (Or.inl rfl) hother
    rwa [List.append_nil] at hall

/-- The keyword is found where it stands at a boundary. -/
theorem findKeyword_here (h : IsKeyword keyword) (hrest : EndsWord rest) :
    findKeyword keyword false true (keyword ++ rest) = some 0 := by
  have hends : endsKeyword rest = true := by
    rcases hrest with rfl | ⟨more, rfl⟩ <;> rfl
  have hstarts := startsWithKeyword_append keyword rest
  rw [hends] at hstarts
  cases keyword with
  | nil => exact absurd rfl h.ne_nil
  | cons k tail =>
    have hk := h.no_quote k List.mem_cons_self
    rw [List.cons_append] at hstarts
    rw [List.cons_append, findKeyword]
    simp only [hk, if_false, hstarts, Bool.not_false, Bool.and_self, if_true]

/-! ## Looking for a closing parenthesis -/

theorem closingParen_quote (depth : Nat) (quoted : Bool) (rest : List Char) :
    closingParen depth quoted (Text.quoteMark :: rest) =
      (closingParen depth (!quoted) rest).map (· + 1) := by
  rw [closingParen.eq_def]
  dsimp only
  rw [if_pos rfl]

theorem closingParen_opening (depth : Nat) (rest : List Char) :
    closingParen depth false ('(' :: rest) = (closingParen (depth + 1) false rest).map (· + 1) := by
  have hquote : '(' ≠ Text.quoteMark := by decide
  rw [closingParen.eq_def]
  dsimp only
  rw [if_neg hquote, if_pos ⟨rfl, rfl⟩]

theorem closingParen_closing (rest : List Char) :
    closingParen 1 false (')' :: rest) = some 0 := by
  have hquote : ')' ≠ Text.quoteMark := by decide
  have hother : ¬ (')' = '(' ∧ false = false) := by decide
  rw [closingParen.eq_def]
  dsimp only
  rw [if_neg hquote, if_neg hother, if_pos ⟨rfl, rfl⟩]

/-- In quotes, and elsewhere at characters that are no parentheses, the depth stays. -/
theorem closingParen_plain {c : Char} {quoted : Bool} (hquote : c ≠ Text.quoteMark)
    (hplain : quoted = false → c ≠ '(' ∧ c ≠ ')') (depth : Nat) (rest : List Char) :
    closingParen depth quoted (c :: rest) = (closingParen depth quoted rest).map (· + 1) := by
  rw [closingParen.eq_def]
  dsimp only
  rw [if_neg hquote, if_neg fun hopen => (hplain hopen.2).1 hopen.1,
    if_neg fun hclose => (hplain hclose.2).2 hclose.1]

theorem closingParen_quoted {value : List Char} (h : Text.quoteMark ∉ value) (depth : Nat)
    (rest : List Char) :
    closingParen depth true (value ++ Text.quoteMark :: rest) =
      (closingParen depth false rest).map (· + (value.length + 1)) := by
  induction value with
  | nil => exact closingParen_quote depth true rest
  | cons c tail ih =>
    have hquote : c ≠ Text.quoteMark := fun heq => h (heq ▸ List.mem_cons_self)
    rw [List.cons_append, closingParen_plain hquote Bool.noConfusion,
      ih fun hmem => h (List.mem_cons_of_mem c hmem), Option.map_map]
    rfl

/-- Text with parentheses in quotes only is passed over. -/
theorem closingParen_append {s : List Char} (h : Text.Quoting (fun c => c ≠ '(' ∧ c ≠ ')') s)
    (depth : Nat) (rest : List Char) :
    closingParen depth false (s ++ rest) =
      (closingParen depth false rest).map (· + s.length) := by
  induction h with
  | nil => simp
  | cons hquote hplain _ ih =>
    rw [List.cons_append, closingParen_plain hquote fun _ => hplain, ih, Option.map_map]
    rfl
  | @quoted value tail hvalue _ ih =>
    rw [List.cons_append, List.append_assoc, List.cons_append, closingParen_quote,
      Bool.not_false, closingParen_quoted hvalue, ih, Option.map_map, Option.map_map]
    apply congrArg (Option.map · _)
    funext n
    simp only [Function.comp_apply, List.length_cons, List.length_append]
    omega

/-- What stands between the first and the last of some characters of a text. -/
theorem between_append (before inner after : List Char) :
    between before.length (before.length + inner.length) (before ++ (inner ++ after)) = inner := by
  rw [between, ← List.append_assoc, ← List.length_append, List.take_left, List.drop_left]

/-- The argument list ends where the parenthesis at the start is closed. -/
theorem splitArguments_of_closingParen {s rest : List Char}
    (h : closingParen 0 false ('(' :: (s ++ ')' :: rest)) = some (s.length + 1)) :
    splitArguments ('(' :: (s ++ ')' :: rest)) = .ok (s, rest) := by
  have hbetween : between 1 (1 + s.length) ('(' :: (s ++ ')' :: rest)) = s :=
    between_append ['('] s (')' :: rest)
  have hdrop : ('(' :: (s ++ ')' :: rest)).drop (1 + s.length + 1) = rest := by
    rw [Nat.add_comm 1, List.drop_succ_cons, ← List.singleton_append, ← List.append_assoc]
    exact List.drop_left' (by simp)
  rw [Nat.add_comm] at h
  rw [splitArguments, h]
  simp only [hbetween, hdrop]

/-- A list of arguments in parentheses is cut off, with parentheses in quotes only. -/
theorem splitArguments_parens {s : List Char} (h : Text.Quoting (fun c => c ≠ '(' ∧ c ≠ ')') s)
    (rest : List Char) : splitArguments ('(' :: (s ++ ')' :: rest)) = .ok (s, rest) := by
  apply splitArguments_of_closingParen
  rw [closingParen_opening, closingParen_append h, closingParen_closing, Option.map_some,
    Option.map_some, Nat.zero_add]

end ArchiveCatalog.Dsl
