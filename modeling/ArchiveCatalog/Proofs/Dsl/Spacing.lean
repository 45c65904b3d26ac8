import ArchiveCatalog.Proofs.Action
import ArchiveCatalog.Proofs.Dsl.Tokens

namespace ArchiveCatalog.Dsl

/-! # Tokens under any spacing

A text renders tokens if it spells them one after the other, with as many blanks as one likes
around them and within comparisons. Blanks may be left out altogether, but not behind a connective
where the next token begins with a key character, since both would be read as one key.

Reading undoes every rendering and reads nothing else: a text is read as the tokens that it
renders, and as no tokens if it renders none.
-/

/-! ## Renderings -/

/-- The ways to write an operator. -/
def Operator.spellings : Operator → List String
  | .equal => ["==", "="]
  | .notEqual => ["!="]
  | .less => ["<"]
  | .atMost => ["<="]
  | .greater => [">"]
  | .atLeast => [">="]

/-- The comparison can be written: its key is read as one, and its value holds no quote. -/
structure Comparison.IsWritable (c : Comparison) : Prop where
  isKey : IsKey c.key
  unquoted : Text.quoteMark ∉ c.value.toList

/-- The token is written like a key. -/
def Token.isConnective : Token → Bool
  | .and | .or | .not => true
  | .opening | .closing | .comparison _ => false

/-- The text spells the token. -/
inductive Token.Spelling : Token → List Char → Prop
  | opening : Spelling .opening ['(']
  | closing : Spelling .closing [')']
  | and : Spelling .and "AND".toList
  | or : Spelling .or "OR".toList
  | not : Spelling .not "NOT".toList
  | comparison {c : Comparison} {operator : String} {blanks blanks' : List Char} :
      c.IsWritable → operator ∈ c.operator.spellings →
      Text.AllBlank blanks → Text.AllBlank blanks' →
      Spelling (.comparison c) (c.key.toList ++ (blanks ++ (operator.toList ++ (blanks' ++
        Text.quoteMark :: (c.value.toList ++ [Text.quoteMark])))))

/-- The text spells the tokens in order, each with a gap of blanks behind it. There is some blank
in the gap behind a connective if what follows begins with a key character. -/
inductive SpellsInOrder : List Token → List Char → Prop
  | nil : SpellsInOrder [] []
  | cons {token : Token} {rest : List Token} {spelling gap tail : List Char} :
      token.Spelling spelling → Text.AllBlank gap → SpellsInOrder rest tail →
      (token.isConnective = true → gap = [] → Text.StopsAt isKeyChar tail) →
      SpellsInOrder (token :: rest) (spelling ++ (gap ++ tail))

/-- The text is a rendering of the tokens: it spells them, with blanks in front as well. -/
def Renders (tokens : List Token) (text : List Char) : Prop :=
  ∃ gap body, Text.AllBlank gap ∧ SpellsInOrder tokens body ∧ text = gap ++ body

/-! ## What renders tokens is read as them -/

theorem ofSpelling_eq_some_iff {s : String} {operator : Operator} :
    Operator.ofSpelling s = some operator ↔ s ∈ operator.spellings := by
  constructor
  · intro h
    unfold Operator.ofSpelling at h
    split_ifs at h with hequal hnot hless hatMost hgreater hatLeast
    · cases h
      rcases hequal with rfl | rfl <;> decide
    all_goals
      cases h
      subst s
      decide
  · intro h
    cases operator with
    | equal =>
      rcases List.mem_pair.1 h with rfl | rfl <;> rfl
    | notEqual | less | atMost | greater | atLeast =>
      cases List.mem_singleton.1 h
      rfl

/-- A spelled token is read, whatever follows it, if a connective is told from the key. -/
theorem Token.Spelling.tokensFrom_append {token : Token} {spelling rest : List Char}
    (h : token.Spelling spelling)
    (hstop : token.isConnective = true → Text.StopsAt isKeyChar rest) (text : List Char) :
    tokensFrom text (spelling ++ rest) = emit [token] (tokensFrom text rest) := by
  cases h with
  | opening => exact tokensFrom_opening text rest
  | closing => exact tokensFrom_closing text rest
  | and | or | not =>
    exact tokensFrom_word rfl (Text.forall_of_all (by decide)) (hstop rfl) text
  | comparison hc hoperator hblanks hblanks' =>
    exact Spells.spacedComparison hc.isKey (ofSpelling_eq_some_iff.2 hoperator) hc.unquoted hblanks
      hblanks' text rest

theorem SpellsInOrder.tokensFrom_eq {tokens : List Token} {body : List Char}
    (h : SpellsInOrder tokens body) (text : List Char) : tokensFrom text body = .ok tokens := by
  induction h with
  | nil => rw [tokensFrom.eq_def]
  | @cons token rest spelling gap tail hspelling hgap _ hconnective ih =>
    have hstop : token.isConnective = true → Text.StopsAt isKeyChar (gap ++ tail) :=
      fun htoken => stopsAt_blanks hgap (hconnective htoken)
    rw [hspelling.tokensFrom_append hstop, tokensFrom_blanks hgap, ih]
    rfl

/-! ## What is read as tokens renders them -/

/-- The first character that is dropped no more is none of the kind. -/
theorem eq_append_of_dropWhile {p : Char → Bool} {s tail : List Char} {c : Char}
    (h : s.dropWhile p = c :: tail) : s = s.takeWhile p ++ c :: tail ∧ p c = false := by
  constructor
  · rw [← h, List.takeWhile_append_dropWhile]
  · have hstop := Text.stopsAt_dropWhile p s
    rw [h] at hstop
    exact hstop c rfl

/-- A key with what is scanned behind it spells the comparison. -/
theorem spelling_of_scanComparison {key : String} (hkey : IsKey key) {s rest : List Char}
    {c : Comparison} (h : scanComparison key s = .ok (c, rest)) :
    ∃ spelling, (Token.comparison c).Spelling spelling ∧ key.toList ++ s = spelling ++ rest := by
  have hblanks : s.takeWhile Text.isBlank ++ Text.trimStart s = s :=
    List.takeWhile_append_dropWhile
  rw [scanComparison] at h
  generalize Text.trimStart s = behind at h hblanks
  cases hoperator : Operator.ofSpelling (String.ofList (behind.takeWhile isOperatorChar)) with
  | none =>
    rw [hoperator] at h
    cases h
  | some operator =>
    rw [hoperator] at h
    dsimp only at h
    split at h
    · cases h
    · rename_i quote value hquote
      split at h
      · rename_i hmark
        split at h
        · cases h
        · rename_i close tail hclose
          cases h
          obtain ⟨hgap, -⟩ := eq_append_of_dropWhile hquote
          obtain ⟨hvalue, hclosed⟩ := eq_append_of_dropWhile hclose
          have hmark' : close = Text.quoteMark := by simpa using hclosed
          rw [hmark] at hgap
          rw [hmark'] at hvalue
          have hunquoted : Text.quoteMark ∉ value.takeWhile (· != Text.quoteMark) := by
            intro hmem
            have hother : (Text.quoteMark != Text.quoteMark) = true :=
              List.mem_takeWhile_imp (p := (· != Text.quoteMark)) hmem
            exact bne_iff_ne.1 hother rfl
          have hwritable : Comparison.IsWritable
              ⟨key, operator, String.ofList (value.takeWhile (· != Text.quoteMark))⟩ :=
            ⟨hkey, by rwa [String.toList_ofList]⟩
          have hspelling := Token.Spelling.comparison hwritable
            (ofSpelling_eq_some_iff.1 hoperator) (Text.allBlank_takeWhile s)
            (Text.allBlank_takeWhile (behind.dropWhile isOperatorChar))
          refine ⟨_, hspelling, ?_⟩
          simp only [String.toList_ofList, List.append_assoc, List.cons_append, List.nil_append]
          rw [← hvalue, ← hgap, List.takeWhile_append_dropWhile, hblanks]
      · cases h

/-- The text begins with the spelling of the token, and with a gap behind it the rest renders the
other tokens. -/
theorem Renders.cons {token : Token} {tokens : List Token} {spelling rest : List Char}
    (hspelling : token.Spelling spelling) (h : Renders tokens rest)
    (hconnective : token.isConnective = true → Text.StopsAt isKeyChar rest) :
    Renders (token :: tokens) (spelling ++ rest) := by
  obtain ⟨gap, body, hgap, hbody, rfl⟩ := h
  refine ⟨[], _, Text.allBlank_nil, .cons hspelling hgap hbody ?_, rfl⟩
  rintro htoken rfl
  exact hconnective htoken

theorem spelling_of_ofWord {word : List Char} {token : Token}
    (h : Token.ofWord word = some token) : token.Spelling word := by
  unfold Token.ofWord at h
  split_ifs at h with hand hor hnot
  · cases h
    exact hand ▸ .and
  · cases h
    exact hor ▸ .or
  · cases h
    exact hnot ▸ .not

theorem isKey_of_ofWord {word : List Char} (hne : word ≠ [])
    (hchars : ∀ c ∈ word, isKeyChar c = true) (h : Token.ofWord word = none) :
    IsKey (String.ofList word) where
  ne_empty := fun heq => hne (by simpa using congrArg String.toList heq)
  isKeyChar := by rwa [String.toList_ofList]
  not_connective := by
    unfold Token.ofWord at h
    split_ifs at h with hand hor hnot
    refine ⟨?_, ?_, ?_⟩
    · rintro heq
      exact hand (by rw [← heq, String.toList_ofList])
    · rintro heq
      exact hor (by rw [← heq, String.toList_ofList])
    · rintro heq
      exact hnot (by rw [← heq, String.toList_ofList])

theorem cons_eq_ok {token : Token} {rest : Except QueryFault (List Token)} {tokens : List Token}
    (h : (do return token :: (← rest)) = Except.ok tokens) :
    ∃ others, rest = .ok others ∧ tokens = token :: others := by
  obtain ⟨others, hrest, htokens⟩ := Action.bind_eq_ok_iff.1 h
  cases htokens
  exact ⟨others, hrest, rfl⟩

/-- A longest run of key characters and what is left behind it. -/
theorem cons_eq_word_append (c : Char) (rest : List Char) :
    c :: rest = (c :: rest.takeWhile isKeyChar) ++ rest.dropWhile isKeyChar :=
  congrArg (c :: ·) List.takeWhile_append_dropWhile.symm

theorem renders_of_tokensFrom {text s : List Char} {tokens : List Token}
    (h : tokensFrom text s = .ok tokens) : Renders tokens s := by
  fun_induction tokensFrom text s generalizing tokens with
  | case1 =>
    cases h
    exact ⟨[], [], Text.allBlank_nil, .nil, rfl⟩
  | case2 c rest hblank ih =>
    obtain ⟨gap, body, hgap, hbody, rfl⟩ := ih h
    exact ⟨c :: gap, body, List.forall_mem_cons.2 ⟨hblank, hgap⟩, hbody, rfl⟩
  | case3 rest _ ih =>
    obtain ⟨others, hothers, rfl⟩ := cons_eq_ok h
    exact (ih hothers).cons .opening nofun
  | case4 rest _ _ ih =>
    obtain ⟨others, hothers, rfl⟩ := cons_eq_ok h
    exact (ih hothers).cons .closing nofun
  | case5 c rest _ _ _ hkey word after token hword =>
    rename_i ih
    obtain ⟨others, hothers, rfl⟩ := cons_eq_ok h
    rw [cons_eq_word_append]
    exact (ih hothers).cons (spelling_of_ofWord hword) fun _ => Text.stopsAt_dropWhile _ rest
  | case6 => cases h
  | case7 c rest _ _ _ hkey word after hword comparison left hscan =>
    rename_i ih
    obtain ⟨others, hothers, rfl⟩ := cons_eq_ok h
    have hchars : ∀ d ∈ word, isKeyChar d = true :=
      List.forall_mem_cons.2 ⟨hkey, fun _ hd => List.mem_takeWhile_imp hd⟩
    have hisKey := isKey_of_ofWord (List.cons_ne_nil c _) hchars hword
    obtain ⟨spelling, hspelling, hsame⟩ := spelling_of_scanComparison hisKey hscan
    rw [String.toList_ofList] at hsame
    rw [cons_eq_word_append, hsame]
    exact (ih hothers).cons hspelling nofun
  | case8 => cases h

/-! ## Reading and rendering -/

theorem Token.Spelling.isWritable {c : Comparison} {spelling : List Char}
    (h : (Token.comparison c).Spelling spelling) : c.IsWritable := by
  cases h with
  | comparison hc => exact hc

theorem SpellsInOrder.isWritable {tokens : List Token} {body : List Char}
    (h : SpellsInOrder tokens body) {c : Comparison} (hc : .comparison c ∈ tokens) :
    c.IsWritable := by
  induction h with
  | nil => cases hc
  | cons hspelling _ _ _ ih =>
    rcases List.mem_cons.1 hc with rfl | hc
    · exact hspelling.isWritable
    · exact ih hc

theorem exists_spelling {token : Token} (h : ∀ c, token = .comparison c → c.IsWritable) :
    ∃ spelling, token.Spelling spelling := by
  cases token with
  | opening => exact ⟨_, .opening⟩
  | closing => exact ⟨_, .closing⟩
  | and => exact ⟨_, .and⟩
  | or => exact ⟨_, .or⟩
  | not => exact ⟨_, .not⟩
  | comparison c =>
    have hoperator : ∃ operator, operator ∈ c.operator.spellings := by
      cases c.operator <;> exact ⟨_, List.mem_cons_self⟩
    obtain ⟨operator, hoperator⟩ := hoperator
    exact ⟨_, .comparison (h c rfl) hoperator Text.allBlank_nil Text.allBlank_nil⟩

/-- Tokens that can be written have a rendering with a blank behind each. -/
theorem exists_spellsInOrder {tokens : List Token}
    (h : ∀ c, .comparison c ∈ tokens → c.IsWritable) : ∃ body, SpellsInOrder tokens body := by
  induction tokens with
  | nil => exact ⟨[], .nil⟩
  | cons token rest ih =>
    obtain ⟨tail, htail⟩ := ih fun c hc => h c (List.mem_cons_of_mem token hc)
    obtain ⟨spelling, hspelling⟩ : ∃ spelling, token.Spelling spelling :=
      exists_spelling fun c hc => h c (hc ▸ List.mem_cons_self)
    exact ⟨_, .cons hspelling Text.allBlank_space htail fun _ hnone => nomatch hnone⟩

/-- A text is read as the tokens that it renders, whatever its spacing and whatever its values
hold, and a text that is read renders what it is read as. All tokens can be rendered if their
comparisons can be written. -/
theorem tokenize_inverts_rendering (tokens : List Token) :
    ((∃ text, Renders tokens text) ↔ ∀ c, .comparison c ∈ tokens → c.IsWritable) ∧
      ∀ text, tokenize text = .ok tokens ↔ Renders tokens text := by
  refine ⟨⟨?_, ?_⟩, fun text => ⟨renders_of_tokensFrom, ?_⟩⟩
  · rintro ⟨text, gap, body, -, hbody, -⟩ c hc
    exact hbody.isWritable hc
  · intro h
    obtain ⟨body, hbody⟩ := exists_spellsInOrder h
    exact ⟨body, [], body, Text.allBlank_nil, hbody, rfl⟩
  · rintro ⟨gap, body, hgap, hbody, rfl⟩
    rw [tokenize, tokensFrom_blanks hgap, hbody.tokensFrom_eq]

/-- No blank stands where none is needed, and a value looks like the end of a group. -/
example : tokenize "NOT(a='1'AND b\u2003!=\t'AND )'OR c<='')".toList =
    .ok [.not, .opening, .comparison ⟨"a", .equal, "1"⟩, .and,
      .comparison ⟨"b", .notEqual, "AND )"⟩, .or, .comparison ⟨"c", .atMost, ""⟩, .closing] := by
  decide +kernel

end ArchiveCatalog.Dsl
