import ArchiveCatalog.Dsl.Token
import ArchiveCatalog.Proofs.Text

namespace ArchiveCatalog.Dsl

/-! # Tokens read back

A text spells tokens if it is read as them whatever follows it, so texts that are put one after
the other spell their tokens in order. Parentheses spell themselves, a connective needs something
behind it that is no key character, and a comparison ends at the quote behind its value.
-/

/-! ## Results in front -/

/-- What has been read, then what the rest gives. -/
def emit {α : Type} (front : List α) (rest : Except QueryFault (List α)) :
    Except QueryFault (List α) :=
  rest.map (front ++ ·)

theorem emit_emit {α : Type} (front back : List α) (rest : Except QueryFault (List α)) :
    emit front (emit back rest) = emit (front ++ back) rest := by
  cases rest with
  | error fault => rfl
  | ok items => exact congrArg Except.ok (List.append_assoc front back items).symm

/-! ## Keys and operators -/

/-- The text is read as one key. -/
structure IsKey (key : String) : Prop where
  ne_empty : key ≠ ""
  isKeyChar : ∀ c ∈ key.toList, isKeyChar c = true
  not_connective : key ≠ "AND" ∧ key ≠ "OR" ∧ key ≠ "NOT"

instance (key : String) : Decidable (IsKey key) :=
  decidable_of_iff
    (key ≠ "" ∧ key.toList.all isKeyChar = true ∧ key ≠ "AND" ∧ key ≠ "OR" ∧ key ≠ "NOT")
    ⟨fun h => ⟨h.1, List.all_eq_true.1 h.2.1, h.2.2⟩,
      fun h => ⟨h.1, List.all_eq_true.2 h.2, h.3⟩⟩

theorem IsKey.ofWord_eq {key : String} (h : IsKey key) : Token.ofWord key.toList = none := by
  obtain ⟨hand, hor, hnot⟩ := h.not_connective
  rw [Token.ofWord, if_neg fun heq => hand (String.toList_inj.1 heq),
    if_neg fun heq => hor (String.toList_inj.1 heq),
    if_neg fun heq => hnot (String.toList_inj.1 heq)]

theorem not_isBlank_of_isKeyChar {c : Char} (h : isKeyChar c = true) : Text.isBlank c = false := by
  simp only [isKeyChar, Bool.and_eq_true, Bool.not_eq_true'] at h
  exact h.1.1.1.1

theorem ne_of_isKeyChar {c : Char} (h : isKeyChar c = true) :
    c ≠ '(' ∧ c ≠ ')' ∧ c ≠ Text.quoteMark := by
  simp only [isKeyChar, Bool.and_eq_true, bne_iff_ne] at h
  exact ⟨h.1.1.1.2, h.1.1.2, h.1.2⟩

theorem not_isBlank_of_isOperatorChar {c : Char} (h : isOperatorChar c = true) :
    Text.isBlank c = false := by
  simp only [isOperatorChar, Bool.or_eq_true, beq_iff_eq] at h
  rcases h with ((rfl | rfl) | rfl) | rfl <;> decide

theorem ne_of_isOperatorChar {c : Char} (h : isOperatorChar c = true) :
    c ≠ '(' ∧ c ≠ ')' ∧ c ≠ Text.quoteMark := by
  simp only [isOperatorChar, Bool.or_eq_true, beq_iff_eq] at h
  rcases h with ((rfl | rfl) | rfl) | rfl <;> decide

/-- Operators are spelled with operator characters. -/
theorem spelled_of_ofSpelling {s : String} {operator : Operator}
    (h : Operator.ofSpelling s = some operator) :
    s.toList ≠ [] ∧ ∀ c ∈ s.toList, isOperatorChar c = true := by
  have hspelling : s = "==" ∨ s = "=" ∨ s = "!=" ∨ s = "<" ∨ s = "<=" ∨ s = ">" ∨ s = ">=" := by
    unfold Operator.ofSpelling at h
    grind
  rcases hspelling with rfl | rfl | rfl | rfl | rfl | rfl | rfl
  all_goals exact ⟨by decide, Text.forall_of_all (by decide)⟩

/-- An operator ends the key before it. -/
theorem stopsAt_spelling {s : String} {operator : Operator}
    (h : Operator.ofSpelling s = some operator) (rest : List Char) :
    Text.StopsAt isKeyChar (s.toList ++ rest) := by
  obtain ⟨hne, hchars⟩ := spelled_of_ofSpelling h
  cases hlist : s.toList with
  | nil => exact absurd hlist hne
  | cons c tail =>
    have hc : isOperatorChar c = true := hchars c (hlist ▸ List.mem_cons_self)
    apply Text.stopsAt_cons
    rw [isKeyChar, hc, Bool.not_true, Bool.and_false]

/-- A blank ends the key before it. -/
theorem stopsAt_blank {c : Char} (h : Text.isBlank c = true) (rest : List Char) :
    Text.StopsAt isKeyChar (c :: rest) := by
  apply Text.stopsAt_cons
  cases hc : isKeyChar c with
  | false => rfl
  | true =>
    rw [not_isBlank_of_isKeyChar hc] at h
    cases h

theorem stopsAt_blanks {blanks rest : List Char} (hblanks : Text.AllBlank blanks)
    (hrest : blanks = [] → Text.StopsAt isKeyChar rest) :
    Text.StopsAt isKeyChar (blanks ++ rest) := by
  cases blanks with
  | nil => exact hrest rfl
  | cons c tail => exact stopsAt_blank (hblanks c List.mem_cons_self) (tail ++ rest)

/-! ## Scanning -/

variable {rest : List Char}

theorem tokensFrom_blanks {blanks : List Char} (h : Text.AllBlank blanks)
    (text rest : List Char) : tokensFrom text (blanks ++ rest) = tokensFrom text rest := by
  induction blanks with
  | nil => rfl
  | cons c tail ih =>
    rw [List.cons_append, tokensFrom.eq_def]
    dsimp only
    rw [if_pos (h c List.mem_cons_self)]
    exact ih fun d hd => h d (List.mem_cons_of_mem c hd)

theorem tokensFrom_opening (text rest : List Char) :
    tokensFrom text ('(' :: rest) = emit [.opening] (tokensFrom text rest) := by
  have hblank : Text.isBlank '(' = false := by decide
  rw [tokensFrom.eq_def]
  dsimp only
  rw [hblank]
  cases tokensFrom text rest <;> rfl

theorem tokensFrom_closing (text rest : List Char) :
    tokensFrom text (')' :: rest) = emit [.closing] (tokensFrom text rest) := by
  have hblank : Text.isBlank ')' = false := by decide
  have hopening : ¬ ')' = '(' := by decide
  rw [tokensFrom.eq_def]
  dsimp only
  rw [hblank, if_neg hopening]
  cases tokensFrom text rest <;> rfl

/-- A connective is read where the run of key characters ends. -/
theorem tokensFrom_word {word : List Char} {token : Token}
    (hword : Token.ofWord word = some token) (hchars : ∀ c ∈ word, isKeyChar c = true)
    (hrest : Text.StopsAt isKeyChar rest) (text : List Char) :
    tokensFrom text (word ++ rest) = emit [token] (tokensFrom text rest) := by
  cases word with
  | nil => cases hword
  | cons c tail =>
    have hc := hchars c List.mem_cons_self
    have htail : ∀ d ∈ tail, isKeyChar d = true := fun d hd => hchars d (List.mem_cons_of_mem c hd)
    obtain ⟨hopening, hclosing, -⟩ := ne_of_isKeyChar hc
    rw [List.cons_append, tokensFrom.eq_def]
    simp only [not_isBlank_of_isKeyChar hc, hopening, hclosing, hc, if_true, if_false,
      Text.takeWhile_run htail hrest, Text.dropWhile_run htail hrest, hword]
    cases tokensFrom text rest <;> rfl

/-- A key is read with the comparison that follows it. -/
theorem tokensFrom_key {key : String} {comparison : Comparison} {left : List Char}
    (hkey : IsKey key) (hrest : Text.StopsAt isKeyChar rest)
    (hscan : scanComparison key rest = .ok (comparison, left)) (text : List Char) :
    tokensFrom text (key.toList ++ rest) =
      emit [.comparison comparison] (tokensFrom text left) := by
  have hword := hkey.ofWord_eq
  have hchars := hkey.isKeyChar
  have hsame : String.ofList key.toList = key := String.ofList_toList
  cases hlist : key.toList with
  | nil => exact absurd (String.toList_inj.1 hlist) hkey.ne_empty
  | cons c tail =>
    rw [hlist] at hword hchars hsame
    have hc := hchars c List.mem_cons_self
    have htail : ∀ d ∈ tail, isKeyChar d = true := fun d hd => hchars d (List.mem_cons_of_mem c hd)
    obtain ⟨hopening, hclosing, -⟩ := ne_of_isKeyChar hc
    have hrun : String.ofList (c :: (tail ++ rest).takeWhile isKeyChar) = key := by
      rw [Text.takeWhile_run htail hrest, hsame]
    have hfound : scanComparison (String.ofList (c :: (tail ++ rest).takeWhile isKeyChar))
        ((tail ++ rest).dropWhile isKeyChar) = .ok (comparison, left) := by
      rw [hrun, Text.dropWhile_run htail hrest, hscan]
    rw [List.cons_append, tokensFrom.eq_def]
    dsimp only
    rw [not_isBlank_of_isKeyChar hc, if_neg Bool.false_ne_true, if_neg hopening, if_neg hclosing,
      if_pos hc]
    simp only [Text.takeWhile_run htail hrest, hword]
    split
    · rename_i fault hfault
      rw [hfound] at hfault
      cases hfault
    · rename_i found rest' hfound'
      rw [hfound] at hfound'
      cases hfound'
      cases tokensFrom text left <;> rfl

/-- A comparison is scanned up to the quote behind its value, with blanks on either side of the
operator. -/
theorem scanComparison_eq {spelling value : String} {operator : Operator}
    {blanks blanks' : List Char} (hblanks : Text.AllBlank blanks)
    (hspelling : Operator.ofSpelling spelling = some operator)
    (hblanks' : Text.AllBlank blanks') (hvalue : Text.quoteMark ∉ value.toList)
    (key : String) (rest : List Char) :
    scanComparison key (blanks ++ (spelling.toList ++ (blanks' ++
      Text.quoteMark :: (value.toList ++ Text.quoteMark :: rest)))) =
      .ok (⟨key, operator, value⟩, rest) := by
  obtain ⟨hne, hchars⟩ := spelled_of_ofSpelling hspelling
  have hstart : Text.trimStart (spelling.toList ++ (blanks' ++
      Text.quoteMark :: (value.toList ++ Text.quoteMark :: rest))) = spelling.toList ++ (blanks' ++
      Text.quoteMark :: (value.toList ++ Text.quoteMark :: rest)) := by
    cases hlist : spelling.toList with
    | nil => exact absurd hlist hne
    | cons c tail =>
      have hc := hchars c (hlist ▸ List.mem_cons_self)
      rw [List.cons_append, Text.trimStart, List.dropWhile_cons, not_isBlank_of_isOperatorChar hc]
      rfl
  have hstop : Text.StopsAt isOperatorChar (blanks' ++
      Text.quoteMark :: (value.toList ++ Text.quoteMark :: rest)) := by
    cases blanks' with
    | nil => exact Text.stopsAt_cons (by decide) _
    | cons c tail =>
      apply Text.stopsAt_cons
      cases hc : isOperatorChar c with
      | false => rfl
      | true =>
        have hblank := hblanks' c List.mem_cons_self
        rw [not_isBlank_of_isOperatorChar hc] at hblank
        cases hblank
  have hquote : Text.trimStart (Text.quoteMark :: (value.toList ++ Text.quoteMark :: rest)) =
      Text.quoteMark :: (value.toList ++ Text.quoteMark :: rest) := rfl
  have hinside : ∀ c ∈ value.toList, (c != Text.quoteMark) = true := by
    intro c hc
    rw [bne_iff_ne]
    rintro rfl
    exact hvalue hc
  have hend : Text.StopsAt (· != Text.quoteMark) (Text.quoteMark :: rest) := by
    intro c hc
    cases hc
    exact bne_self_eq_false Text.quoteMark
  rw [scanComparison, Text.trimStart_append hblanks, hstart]
  simp only [Text.takeWhile_run hchars hstop, Text.dropWhile_run hchars hstop, hspelling,
    String.ofList_toList, Text.trimStart_append hblanks', hquote, if_true,
    Text.takeWhile_run hinside hend, Text.dropWhile_run hinside hend]

/-! ## Spelled tokens -/

/-- The text is read as the tokens, whatever follows it. -/
def Spells (s : List Char) (tokens : List Token) : Prop :=
  ∀ text rest, tokensFrom text (s ++ rest) = emit tokens (tokensFrom text rest)

namespace Spells

theorem append {s s' : List Char} {tokens tokens' : List Token} (h : Spells s tokens)
    (h' : Spells s' tokens') : Spells (s ++ s') (tokens ++ tokens') := by
  intro text rest
  rw [List.append_assoc, h, h', emit_emit]

/-- A connective needs a blank behind it to be told from a key. -/
theorem word {word : List Char} {token : Token} (h : Token.ofWord word = some token)
    (hchars : ∀ c ∈ word, isKeyChar c = true) : Spells (' ' :: (word ++ [' '])) [token] := by
  intro text rest
  have hstop : Text.StopsAt isKeyChar ([' '] ++ rest) := Text.stopsAt_cons (by decide) rest
  have hword := tokensFrom_word h hchars hstop text
  rw [List.cons_append, List.append_assoc, ← List.singleton_append,
    tokensFrom_blanks Text.allBlank_space, hword, tokensFrom_blanks Text.allBlank_space]

/-- A text in parentheses. -/
theorem parens {s : List Char} {tokens : List Token} (h : Spells s tokens) :
    Spells ('(' :: (s ++ [')'])) (.opening :: (tokens ++ [.closing])) := by
  intro text rest
  rw [List.cons_append, tokensFrom_opening, List.append_assoc, h, List.singleton_append,
    tokensFrom_closing, emit_emit, emit_emit]
  rfl

/-- A NOT right before an opening parenthesis. -/
theorem negatedParens {s : List Char} {tokens : List Token} (h : Spells s tokens) :
    Spells ("NOT(".toList ++ (s ++ [')'])) (.not :: .opening :: (tokens ++ [.closing])) := by
  intro text rest
  have hword : Token.ofWord "NOT".toList = some .not := rfl
  have hchars : ∀ c ∈ "NOT".toList, isKeyChar c = true := Text.forall_of_all (by decide)
  have hstop : Text.StopsAt isKeyChar ('(' :: (s ++ [')']) ++ rest) :=
    Text.stopsAt_cons (by decide) _
  have hnot := tokensFrom_word hword hchars hstop text
  have hcut : "NOT(".toList ++ (s ++ [')']) ++ rest =
      "NOT".toList ++ ('(' :: (s ++ [')']) ++ rest) := rfl
  rw [hcut, hnot, h.parens, emit_emit]
  rfl

/-- A comparison with blanks on either side of its operator. -/
theorem spacedComparison {key spelling value : String} {operator : Operator}
    {blanks blanks' : List Char} (hkey : IsKey key)
    (hspelling : Operator.ofSpelling spelling = some operator)
    (hvalue : Text.quoteMark ∉ value.toList) (hblanks : Text.AllBlank blanks)
    (hblanks' : Text.AllBlank blanks') :
    Spells (key.toList ++ (blanks ++ (spelling.toList ++ (blanks' ++ Text.quoteMark ::
      (value.toList ++ [Text.quoteMark]))))) [.comparison ⟨key, operator, value⟩] := by
  intro text rest
  have hscan := scanComparison_eq hblanks hspelling hblanks' hvalue key rest
  have hstop : Text.StopsAt isKeyChar (blanks ++ (spelling.toList ++ (blanks' ++
      Text.quoteMark :: (value.toList ++ Text.quoteMark :: rest)))) :=
    stopsAt_blanks hblanks fun _ => stopsAt_spelling hspelling _
  rw [← tokensFrom_key hkey hstop hscan]
  simp only [List.append_assoc, List.cons_append, List.nil_append]

theorem comparison {key spelling value : String} {operator : Operator} (hkey : IsKey key)
    (hspelling : Operator.ofSpelling spelling = some operator)
    (hvalue : Text.quoteMark ∉ value.toList) :
    Spells (key.toList ++ (' ' :: (spelling.toList ++ (' ' :: Text.quoteMark ::
      (value.toList ++ [Text.quoteMark]))))) [.comparison ⟨key, operator, value⟩] :=
  spacedComparison hkey hspelling hvalue Text.allBlank_space Text.allBlank_space

theorem tokenize_eq {s blanks : List Char} {tokens : List Token} (h : Spells s tokens)
    (hblanks : Text.AllBlank blanks) : tokenize (blanks ++ s) = .ok tokens := by
  have hall := h (blanks ++ s) []
  have hnothing : tokensFrom (blanks ++ s) [] = .ok [] := by rw [tokensFrom.eq_def]
  rw [List.append_nil, hnothing] at hall
  rw [tokenize, tokensFrom_blanks hblanks, hall, emit, Except.map, List.append_nil]

end Spells

end ArchiveCatalog.Dsl
