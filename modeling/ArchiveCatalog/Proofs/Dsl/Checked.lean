import ArchiveCatalog.Proofs.Dsl.Cuts
import ArchiveCatalog.Proofs.Dsl.Tokens

namespace ArchiveCatalog.Dsl

/-! # Reading stays in range

Whatever the text, reading it by offsets gives what reading it by positions gives, so no cut is out
of range, no item is missing and no count goes below zero.
-/

open Text (offsetAt)

namespace Checked

/-! ## Tokens -/

variable {kind : Char → Bool} {text : List Char} {i : Nat}

theorem skip_eq (kind : Char → Bool) (text : List Char) (i : Nat) :
    skip kind text i = i + ((text.drop i).takeWhile kind).length := by
  fun_induction skip kind text i with
  | case1 i hi hkind ih =>
    rw [ih, List.drop_eq_getElem_cons hi, List.takeWhile_cons, if_pos hkind, List.length_cons]
    omega
  | case2 i hi hkind =>
    rw [List.drop_eq_getElem_cons hi, List.takeWhile_cons, if_neg hkind, List.length_nil]
    rfl
  | case3 i hi => rw [List.drop_of_length_le (Nat.le_of_not_lt hi), List.takeWhile_nil]; rfl

theorem drop_skip (kind : Char → Bool) (text : List Char) (i : Nat) :
    text.drop (skip kind text i) = (text.drop i).dropWhile kind := by
  have hdrop : ((text.drop i).takeWhile kind ++ (text.drop i).dropWhile kind).drop
      ((text.drop i).takeWhile kind).length = (text.drop i).dropWhile kind := List.drop_left
  rwa [List.takeWhile_append_dropWhile, List.drop_drop, ← skip_eq] at hdrop

theorem skip_le_length (kind : Char → Bool) (hi : i ≤ text.length) :
    skip kind text i ≤ text.length := by
  have hrun := (List.takeWhile_sublist kind (l := text.drop i)).length_le
  rw [List.length_drop] at hrun
  rw [skip_eq]
  omega

/-- What is skipped is cut out. -/
theorem span_skip (kind : Char → Bool) (hi : i ≤ text.length) :
    span i (skip kind text i) text = .ok ((text.drop i).takeWhile kind) := by
  have htake := List.prefix_iff_eq_take.1 (List.takeWhile_prefix kind (l := text.drop i))
  rw [span, if_pos ⟨le_skip kind text i, skip_le_length kind hi⟩, between, skip_eq, List.drop_take,
    Nat.add_sub_cancel_left, ← htake]

theorem of_drop_eq_cons {c : Char} {rest : List Char} (h : text.drop i = c :: rest) :
    i < text.length ∧ text[i]? = some c ∧ text.drop (i + 1) = rest := by
  refine ⟨?_, ?_, ?_⟩
  · have hlength := congrArg List.length h
    rw [List.length_drop, List.length_cons] at hlength
    omega
  · rw [← List.head?_drop, h, List.head?_cons]
  · rw [← List.drop_drop, h, List.drop_succ_cons, List.drop_zero]

/-- The operator and value behind a key are read at positions as they are read from the text that
is left. -/
theorem scanComparison_eq (key : String) (hi : i ≤ text.length) :
    (∃ fault, Dsl.scanComparison key (text.drop i) = .error fault ∧
      scanComparison key text i = .error (.fault fault)) ∨
    ∃ comparison next, Dsl.scanComparison key (text.drop i) = .ok (comparison, text.drop next) ∧
      scanComparison key text i = .ok (comparison, next) ∧ next ≤ text.length := by
  have hblanks (j : Nat) : Text.trimStart (text.drop j) = text.drop (skip Text.isBlank text j) :=
    (drop_skip Text.isBlank text j).symm
  rw [scanComparison, Dsl.scanComparison, hblanks, ← drop_skip isOperatorChar, hblanks,
    span_skip isOperatorChar (skip_le_length Text.isBlank hi)]
  dsimp only [bind, Except.bind]
  generalize String.ofList (List.takeWhile isOperatorChar _) = spelling
  generalize skip Text.isBlank text (skip isOperatorChar text _) = quote
  -- what is left is asked by its shape on one side and by its position on the other
  cases Operator.ofSpelling spelling with
  | none => exact .inl ⟨_, rfl, rfl⟩
  | some operator =>
    dsimp only
    cases hquote : text.drop quote with
    | nil =>
      have hnone : text[quote]? = none := by rw [← List.head?_drop, hquote, List.head?_nil]
      rw [hnone, if_neg (Option.some_ne_none Text.quoteMark).symm]
      exact .inl ⟨_, rfl, rfl⟩
    | cons c value =>
      rcases of_drop_eq_cons hquote with ⟨hlt, hc, hvalue⟩
      dsimp only
      by_cases hmark : c = Text.quoteMark
      · have hcut := span_skip (· != Text.quoteMark) hlt
        have hrest := drop_skip (· != Text.quoteMark) text (quote + 1)
        rw [hvalue] at hcut hrest
        rw [hc, if_pos hmark, if_pos (congrArg some hmark), hcut]
        generalize skip (· != Text.quoteMark) text (quote + 1) = stop at hrest ⊢
        rw [← hrest]
        cases hstop : text.drop stop with
        | nil =>
          rw [if_neg (Nat.not_lt.2 (List.drop_eq_nil_iff.1 hstop))]
          exact .inl ⟨_, rfl, rfl⟩
        | cons d rest =>
          rcases of_drop_eq_cons hstop with ⟨hlt, -, rfl⟩
          rw [if_pos hlt]
          exact .inr ⟨_, stop + 1, rfl, rfl, hlt⟩
      · rw [hc, if_neg hmark, if_neg fun heq => hmark (Option.some.inj heq)]
        exact .inl ⟨_, rfl, rfl⟩

/-- At a key character a word is read, and behind it a comparison unless it is a connective. -/
theorem tokensFrom_word_at (h : i < text.length) (hkey : isKeyChar text[i] = true) :
    Dsl.tokensFrom text (text.drop i) =
      match Token.ofWord ((text.drop i).takeWhile isKeyChar) with
      | some token => do
        return token :: (← Dsl.tokensFrom text (text.drop (skip isKeyChar text i)))
      | none => do
        let (comparison, left) ←
          Dsl.scanComparison (String.ofList ((text.drop i).takeWhile isKeyChar))
            (text.drop (skip isKeyChar text i))
        return .comparison comparison :: (← Dsl.tokensFrom text left) := by
  have hne := ne_of_isKeyChar hkey
  rw [drop_skip, List.drop_eq_getElem_cons h, List.takeWhile_cons, if_pos hkey, List.dropWhile_cons,
    if_pos hkey, Dsl.tokensFrom.eq_def text (_ :: _)]
  dsimp only
  rw [not_isBlank_of_isKeyChar hkey, if_neg Bool.false_ne_true, if_neg hne.1, if_neg hne.2.1,
    if_pos hkey]
  cases Token.ofWord (text[i] :: (text.drop (i + 1)).takeWhile isKeyChar) with
  | some token => rfl
  | none =>
    dsimp only [bind, Except.bind]
    split
    · rename_i hscan
      rw [hscan]
    · rename_i hscan
      rw [hscan]

/-- The tokens are read at positions as they are read from the text that is left. -/
theorem tokensFrom_eq (text : List Char) {i : Nat} (hi : i ≤ text.length) :
    tokensFrom text i = lift (Dsl.tokensFrom text (text.drop i)) := by
  -- along the reading by positions, which goes on at a position inside the text or at its end
  fun_induction tokensFrom text i with
  | case1 i h hblank ih =>
    rw [ih h, List.drop_eq_getElem_cons h, Dsl.tokensFrom.eq_def text (_ :: _)]
    dsimp only
    rw [if_pos hblank]
  | case2 i h hblank hopen ih =>
    rw [ih h, List.drop_eq_getElem_cons h, Dsl.tokensFrom.eq_def text (_ :: _)]
    dsimp only
    rw [if_neg hblank, if_pos hopen, lift_bind]
    rfl
  | case3 i h hblank hopen hclose ih =>
    rw [ih h, List.drop_eq_getElem_cons h, Dsl.tokensFrom.eq_def text (_ :: _)]
    dsimp only
    rw [if_neg hblank, if_neg hopen, if_pos hclose, lift_bind]
    rfl
  | case4 i h hblank hopen hclose hkey halt hspan =>
    rw [span_skip isKeyChar hi] at hspan
    cases hspan
  | case5 i h hblank hopen hclose hkey word hspan token htoken ih =>
    rw [span_skip isKeyChar hi] at hspan
    cases hspan
    rw [ih (skip_le_length isKeyChar hi), tokensFrom_word_at h hkey, htoken]
    dsimp only
    rw [lift_bind]
    rfl
  | case6 i h hblank hopen hclose hkey word hspan hnone halt hscan =>
    rw [span_skip isKeyChar hi] at hspan
    cases hspan
    rw [tokensFrom_word_at h hkey, hnone]
    rcases scanComparison_eq (String.ofList ((text.drop i).takeWhile isKeyChar))
      (skip_le_length isKeyChar hi) with ⟨fault, hleft, hread⟩ | ⟨comparison, next, -, hread, -⟩
    · rw [hread] at hscan
      cases hscan
      rw [hleft]
      rfl
    · rw [hread] at hscan
      cases hscan
  | case7 i h hblank hopen hclose hkey word hspan hnone comparison next hscan ih =>
    rw [span_skip isKeyChar hi] at hspan
    cases hspan
    rw [tokensFrom_word_at h hkey, hnone]
    rcases scanComparison_eq (String.ofList ((text.drop i).takeWhile isKeyChar))
      (skip_le_length isKeyChar hi) with ⟨fault, -, hread⟩ | ⟨_, _, hleft, hread, hnext⟩
    · rw [hread] at hscan
      cases hscan
    · rw [hread] at hscan
      cases hscan
      rw [ih hnext, hleft]
      dsimp only [bind, Except.bind]
      cases Dsl.tokensFrom text (text.drop next) <;> rfl
  | case8 i h hblank hopen hclose hkey =>
    have hposition : text.length - (text.length - (i + 1) + 1) = i := by omega
    rw [List.drop_eq_getElem_cons h, Dsl.tokensFrom.eq_def text (_ :: _)]
    dsimp only
    rw [if_neg hblank, if_neg hopen, if_neg hclose, if_neg hkey, List.length_cons, List.length_drop,
      hposition]
    rfl
  | case9 i h =>
    rw [List.drop_of_length_le (Nat.le_of_not_lt h), Dsl.tokensFrom.eq_def text []]
    rfl

theorem parseCondition_eq (text : List Char) :
    parseCondition text = lift (Dsl.parseCondition text) := by
  have htokens := tokensFrom_eq text (Nat.zero_le text.length)
  rw [List.drop_zero] at htokens
  rw [parseCondition, htokens, Dsl.parseCondition, lift_bind, tokenize]

/-! ## Arguments -/

/-- Of four or five parts each that is looked up is there. -/
theorem parseFilter_eq (value : String) : parseFilter value = lift (Dsl.parseFilter value) := by
  rw [parseFilter, Dsl.parseFilter]
  generalize (Text.splitOn ',' value.toList).map Text.trim = parts
  rcases parts with
    _ | ⟨start, _ | ⟨stop, _ | ⟨priority, _ | ⟨algorithm, _ | ⟨epsilon, _ | ⟨more, rest⟩⟩⟩⟩⟩⟩
  · rfl
  · rfl
  · rfl
  · rfl
  · simp only [List.length_cons, List.length_nil, List.getElem?_cons_succ, List.getElem?_cons_zero,
      List.getElem?_nil, inRange, bind, Except.bind, pure, Except.pure]
    cases FilterAlgorithm.ofName (String.ofList algorithm) <;> rfl
  · simp only [List.length_cons, List.length_nil, List.getElem?_cons_succ, List.getElem?_cons_zero,
      inRange, bind, Except.bind, pure, Except.pure]
    cases parseEpsilon epsilon with
    | error fault => rfl
    | ok epsilon => cases FilterAlgorithm.ofName (String.ofList algorithm) <;> rfl
  · have hshape : (start :: stop :: priority :: algorithm :: epsilon :: more :: rest).length ≠ 4 ∧
        (start :: stop :: priority :: algorithm :: epsilon :: more :: rest).length ≠ 5 := by
      simp only [List.length_cons]
      omega
    exact if_pos hshape

theorem applyArgument_eq (q : ComplexQuery) (argument : String × String) :
    applyArgument q argument = lift (Dsl.applyArgument q argument) := by
  rw [applyArgument]
  split
  · rename_i hfilter
    have hformat : ¬ argument.1 = "FORMAT" := by
      rw [hfilter]
      decide
    have hsort : ¬ argument.1 = "SORT_BY" := by
      rw [hfilter]
      decide
    rw [parseFilter_eq, Dsl.applyArgument, if_neg hformat, if_neg hsort, if_pos hfilter, lift_bind]
    rfl
  · rfl

theorem foldlM_applyArgument (q : ComplexQuery) (arguments : List (String × String)) :
    arguments.foldlM applyArgument q = lift (arguments.foldlM Dsl.applyArgument q) := by
  induction arguments generalizing q with
  | nil => rfl
  | cons argument rest ih =>
    rw [List.foldlM_cons, List.foldlM_cons, lift_bind, applyArgument_eq]
    exact congrArg (lift (Dsl.applyArgument q argument) >>= ·) (funext ih)

theorem parseArguments_eq (arguments : List Char) :
    parseArguments arguments = lift (Dsl.parseArguments arguments) := by
  have hpieces : piecesFrom ',' arguments 0 false (Text.withOffsets 0 arguments) =
      .ok (Text.splitUnquoted ',' false arguments) := piecesFrom_eq ',' [] [] arguments false
  rw [parseArguments, hpieces]
  rfl

theorem splitStatement_eq (s : List Char) : splitStatement s = lift (Dsl.splitStatement s) := by
  rw [splitStatement, Dsl.splitStatement, startsWithKeyword_eq (by decide)]
  dsimp only [bind, Except.bind]
  split
  · rename_i hstarts
    have hend : offsetAt s 3 = 3 := offsetAt_keyword_length (by decide) hstarts
    have hbehind := cutFrom_offsetAt s 3
    rw [hend] at hbehind
    rw [hbehind]
    dsimp only
    generalize Text.trimStart (s.drop 3) = rest
    split
    · rename_i hopen
      rcases List.head?_eq_some_iff.1 hopen with ⟨tail, rfl⟩
      rw [splitArguments_eq]
      cases Dsl.splitArguments ('(' :: tail) with
      | error fault => rfl
      | ok parts =>
        exact (lift_bind (enclosedBody (Text.trimStart parts.2)) fun s => pure (parts.1, s)).symm
    · exact (lift_bind (enclosedBody (Text.trimStart rest)) fun s => pure ([], s)).symm
  · rfl

/-! ## Selections -/

section Selection

variable {body : List Char} {fromAt whereAt : Nat}

theorem offsetAt_from_end (hfrom : Dsl.findKeyword "FROM".toList false true body = some fromAt) :
    offsetAt body (fromAt + "FROM".toList.length) =
      offsetAt body fromAt + Text.byteCount "FROM".toList :=
  offsetAt_keyword (by decide) (startsWithKeyword_of_findKeyword hfrom)

/-- The offsets of FROM and WHERE are in the order of their positions. -/
theorem offsetAt_lt_iff (hfrom : Dsl.findKeyword "FROM".toList false true body = some fromAt)
    (hwhere : Dsl.findKeyword "WHERE".toList false true body = some whereAt) :
    offsetAt body fromAt < offsetAt body whereAt ↔ fromAt < whereAt := by
  constructor
  · intro hlt
    by_contra hle
    exact absurd hlt (Nat.not_lt.2 (Text.offsetAt_le (Nat.not_lt.1 hle) body))
  · intro hlt
    have hend := Text.offsetAt_le (from_before_where hfrom hwhere hlt) body
    have hsize : 0 < Text.byteCount "FROM".toList := by decide
    rw [offsetAt_from_end hfrom] at hend
    omega

/-- The WHERE that is used is the same by offsets. -/
theorem filter_offsetAt (hfrom : Dsl.findKeyword "FROM".toList false true body = some fromAt) :
    ((Dsl.findKeyword "WHERE".toList false true body).map (offsetAt body)).filter
        (offsetAt body fromAt < ·) =
      ((Dsl.findKeyword "WHERE".toList false true body).filter (fromAt < ·)).map
        (offsetAt body) := by
  cases hwhere : Dsl.findKeyword "WHERE".toList false true body with
  | none => rfl
  | some whereAt =>
    simp only [Option.map_some, Option.filter_some, decide_eq_true_eq, offsetAt_lt_iff hfrom hwhere]
    split <;> rfl

theorem parseSelection_eq (body : List Char) :
    parseSelection body = lift (Dsl.parseSelection body) := by
  rw [parseSelection, Dsl.parseSelection, selectionParts, startsWithKeyword_eq (by decide)]
  dsimp only [bind, Except.bind]
  split
  · rename_i hselect
    rw [findKeyword_eq (by decide), findKeyword_eq (by decide)]
    cases hfrom : Dsl.findKeyword "FROM".toList false true body with
    | none => rfl
    | some fromAt =>
      have hfields := cut_offsetAt (Nat.le_of_lt (select_before_from hselect hfrom)) body
      rw [offsetAt_keyword_length (by decide) hselect] at hfields
      dsimp only [Option.map_some]
      rw [hfields, filter_offsetAt hfrom]
      cases hused : (Dsl.findKeyword "WHERE".toList false true body).filter (fromAt < ·) with
      | none =>
        have htypes := cutFrom_offsetAt body (fromAt + "FROM".toList.length)
        rw [offsetAt_from_end hfrom] at htypes
        dsimp only [Option.map_none]
        rw [htypes]
        rfl
      | some whereAt =>
        rcases Option.filter_eq_some_iff.1 hused with ⟨hwhere, hbehind⟩
        have hend := from_before_where hfrom hwhere (of_decide_eq_true hbehind)
        have htypes := cut_offsetAt hend body
        have hcondition := cutFrom_offsetAt body (whereAt + "WHERE".toList.length)
        rw [offsetAt_from_end hfrom] at htypes
        rw [offsetAt_keyword (by decide) (startsWithKeyword_of_findKeyword hwhere),
          String.length_toList] at hcondition
        dsimp only [Option.map_some]
        rw [htypes, hcondition]
        dsimp only
        rw [parseCondition_eq]
        cases Dsl.parseCondition (body.drop (whereAt + "WHERE".length)) <;> rfl
  · rfl

end Selection

/-! ## Statements -/

theorem parseStatement_eq (text : String) :
    parseStatement text = lift (Dsl.parseStatement text) := by
  rw [parseStatement, Dsl.parseStatement, splitStatement_eq, lift_bind]
  apply congrArg (lift (Dsl.splitStatement (Text.trim text.toList)) >>= ·)
  funext ⟨arguments, body⟩
  dsimp only
  rw [parseSelection_eq, lift_bind]
  apply congrArg (lift (Dsl.parseSelection body) >>= ·)
  funext selection
  rw [parseArguments_eq, lift_bind]
  apply congrArg (lift (Dsl.parseArguments arguments) >>= ·)
  funext parsed
  exact foldlM_applyArgument selection parsed

end Checked

/-- Reading never leaves its text. -/
structure StaysInRange : Prop where
  /-- A text is read as a query or refused as malformed, by offsets as without them, and there is no
  third end. -/
  read_or_refused (text : String) :
    (∃ query, Checked.parseStatement text = .ok query ∧ parseStatement text = .ok query) ∨
      ∃ fault, Checked.parseStatement text = .error (.fault fault) ∧
        parseStatement text = .error fault ∧ (CatalogError.query fault).kind = .queryFormulation
  /-- FROM begins behind SELECT. -/
  select_le_from {body : List Char} {fromAt : Nat} :
    Checked.startsWithKeyword "SELECT".toList body = .ok true →
      Checked.findKeyword "FROM".toList body = .ok (some fromAt) →
        Text.byteCount "SELECT".toList ≤ fromAt
  /-- A WHERE that is used begins behind FROM. -/
  from_le_where {body : List Char} {fromAt whereAt : Nat} :
    Checked.findKeyword "FROM".toList body = .ok (some fromAt) →
      Checked.findKeyword "WHERE".toList body = .ok (some whereAt) →
        fromAt < whereAt → fromAt + Text.byteCount "FROM".toList ≤ whereAt
  /-- The text can be cut where a keyword begins and where it ends. -/
  keyword_boundaries {keyword s : List Char} {offset : Nat} :
    IsCapitals keyword → Checked.findKeyword keyword s = .ok (some offset) →
      Text.isBoundary s offset = true ∧ Text.isBoundary s (offset + Text.byteCount keyword) = true
  /-- While the parenthesis at the start is being closed, the depth stays above zero. -/
  depth_pos (s : List Char) : ∃ close, Checked.closingParen ('(' :: s) = .ok close
  /-- The arguments lie inside of the text, from its first parenthesis up to the closing one. -/
  arguments_inside {s : List Char} {close : Nat} :
    Checked.closingParen ('(' :: s) = .ok (some close) →
      ∃ arguments rest, s = arguments ++ ')' :: rest ∧ close = 1 + Text.byteCount arguments ∧
        Checked.splitArguments ('(' :: s) = .ok (arguments, rest)

/-- Every text is read to one of two ends, whatever its characters, quotes and parentheses. -/
theorem reading_stays_in_range : StaysInRange where
  read_or_refused text := by
    rw [Checked.parseStatement_eq]
    cases parseStatement text with
    | ok query => exact .inl ⟨query, rfl, rfl⟩
    | error fault => exact .inr ⟨fault, rfl, rfl, rfl⟩
  select_le_from := by
    intro body fromAt hselect hfrom
    rw [Checked.startsWithKeyword_eq (by decide), Except.ok.injEq] at hselect
    rcases Checked.of_findKeyword (by decide) hfrom with ⟨n, hfound, rfl⟩
    rw [← offsetAt_keyword_length (by decide) hselect]
    exact Text.offsetAt_le (Nat.le_of_lt (select_before_from hselect hfound)) body
  from_le_where := by
    intro body fromAt whereAt hfrom hwhere hbehind
    rcases Checked.of_findKeyword (by decide) hfrom with ⟨n, hfound, rfl⟩
    rcases Checked.of_findKeyword (by decide) hwhere with ⟨m, hfound', rfl⟩
    have hlt := (Checked.offsetAt_lt_iff hfound hfound').1 hbehind
    rw [← Checked.offsetAt_from_end hfound]
    exact Text.offsetAt_le (from_before_where hfound hfound' hlt) body
  keyword_boundaries := by
    intro keyword s offset hkeyword h
    rcases Checked.of_findKeyword hkeyword h with ⟨n, hfound, rfl⟩
    rw [← offsetAt_keyword hkeyword (startsWithKeyword_of_findKeyword hfound)]
    exact ⟨Text.isBoundary_offsetAt s n, Text.isBoundary_offsetAt s (n + keyword.length)⟩
  depth_pos s := ⟨_, Checked.closingParen_eq s⟩
  arguments_inside := by
    intro s close h
    rw [Checked.closingParen_eq, Except.ok.injEq] at h
    rcases Option.map_eq_some_iff.1 h with ⟨n, hclose, rfl⟩
    rcases split_of_closingParen hclose with ⟨arguments, rest, rfl, rfl⟩
    refine ⟨arguments, rest, rfl, ?_, ?_⟩
    · rw [offsetAt, List.take_succ_cons, List.take_left, Text.byteCount_cons]
      rfl
    · rw [Checked.splitArguments_eq, splitArguments_of_closingParen hclose]
      rfl

end ArchiveCatalog.Dsl
