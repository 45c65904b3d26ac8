import ArchiveCatalog.Dsl.Checked
import ArchiveCatalog.Proofs.Action
import ArchiveCatalog.Proofs.Dsl.Scans
import ArchiveCatalog.Proofs.Offset

namespace ArchiveCatalog.Dsl

/-! # Cuts of a statement

The scans give the offsets of the positions at which they stop, so every cut at them is in range and
is the cut at the positions.
-/

open Text (offsetAt)

variable {keyword s : List Char} {quoted boundary : Bool} {start stop n : Nat}

/-! ## Keywords -/

theorem IsCapitals.utf8Size (h : IsCapitals keyword) : ∀ k ∈ keyword, k.utf8Size = 1 := by
  intro k hk
  exact utf8Size_of_isAlpha (isAlpha_iff.2 (.inl (h k hk)))

/-- Behind a keyword the offset has grown by the keyword's size. -/
theorem offsetAt_keyword (hkeyword : IsCapitals keyword)
    (h : startsWithKeyword keyword (s.drop n) = true) :
    offsetAt s (n + keyword.length) = offsetAt s n + Text.byteCount keyword := by
  rcases word_of_startsWithKeyword hkeyword h with ⟨word, rest, hsplit, hlength, hletters, -⟩
  rw [Text.byteCount_of_small hkeyword.utf8Size]
  exact Text.offsetAt_add hsplit hlength fun c hc => utf8Size_of_isAlpha (hletters c hc)

theorem offsetAt_keyword_length (hkeyword : IsCapitals keyword)
    (h : startsWithKeyword keyword s = true) :
    offsetAt s keyword.length = Text.byteCount keyword := by
  have hsize := offsetAt_keyword (n := 0) hkeyword h
  have hzero : offsetAt s 0 = 0 := rfl
  rwa [hzero, Nat.zero_add, Nat.zero_add] at hsize

namespace Checked

theorem lift_bind {α β : Type} (x : Except QueryFault α) (f : α → Except QueryFault β) :
    lift (x >>= f) = lift x >>= fun a => lift (f a) :=
  Action.mapError_bind Halt.fault x f

theorem cut_append (before inner after : List Char) :
    cut (Text.byteCount before) (Text.byteCount (before ++ inner)) (before ++ (inner ++ after)) =
      .ok inner := by
  rw [cut, Text.slice?_append, inRange]

theorem cutFrom_append (before after : List Char) :
    cutFrom (Text.byteCount before) (before ++ after) = .ok after := by
  rw [cutFrom, Text.sliceFrom?_append, inRange]

-- Inside of a character a text cannot be cut.
example : cutFrom 1 ['é', ' '] = .error .outOfRange := rfl

theorem cut_offsetAt (h : start ≤ stop) (s : List Char) :
    cut (offsetAt s start) (offsetAt s stop) s = .ok (between start stop s) := by
  rw [cut, Text.slice?_offsetAt h, inRange, between]

theorem cutFrom_offsetAt (s : List Char) (n : Nat) :
    cutFrom (offsetAt s n) s = .ok (s.drop n) := by
  rw [cutFrom, Text.sliceFrom?_offsetAt, inRange]

/-- A text is cut behind a keyword only if it is long enough and a character ends there, and then it
tells whether it begins with the keyword. -/
theorem startsWithKeyword_eq (hkeyword : IsCapitals keyword) (s : List Char) :
    startsWithKeyword keyword s = .ok (Dsl.startsWithKeyword keyword s) := by
  have hsize := Text.byteCount_of_small hkeyword.utf8Size
  have hcut (before after : List Char) : cut 0 (Text.byteCount before) (before ++ after) =
      .ok before := cut_append [] before after
  rw [startsWithKeyword]
  cases hstarts : Dsl.startsWithKeyword keyword s with
  | true =>
    rcases word_of_startsWithKeyword hkeyword hstarts with
      ⟨word, rest, rfl, hlength, hletters, hfolded⟩
    have hword : Text.byteCount keyword = Text.byteCount word := by
      rw [hsize, Text.byteCount_of_small fun c hc => utf8Size_of_isAlpha (hletters c hc), hlength]
    have hends : endsKeyword rest = true := by
      rw [Dsl.startsWithKeyword, ← hlength, List.drop_left, Bool.and_eq_true] at hstarts
      exact hstarts.2
    rw [hword, if_pos ⟨by simp, Text.isBoundary_iff.2 ⟨word, rest, rfl, rfl⟩⟩, hcut, cutFrom_append]
    dsimp only [bind, Except.bind]
    rw [if_pos hfolded, hends]
    rfl
  | false =>
    split
    · -- the part of the keyword's size need not have as many characters as the keyword
      rename_i hinside
      rcases Text.isBoundary_iff.1 hinside.2 with ⟨before, after, rfl, hbefore⟩
      rw [hbefore, hcut, cutFrom_append]
      dsimp only [bind, Except.bind]
      split
      · rename_i hfolded
        rw [Dsl.startsWithKeyword, ← length_of_sameFolded hfolded, List.take_left, List.drop_left,
          hfolded, Bool.true_and] at hstarts
        rw [hstarts]
        rfl
      · rfl
    · rfl

/-- What a scan finds behind a character lies behind that character's bytes. -/
theorem map_offsetAt_cons (start : Nat) (c : Char) (rest : List Char) (found : Option Nat) :
    ((found.map (· + 1)).map fun n => start + offsetAt (c :: rest) n) =
      found.map fun n => start + c.utf8Size + offsetAt rest n := by
  rw [Option.map_map]
  apply congrArg (Option.map · found)
  funext n
  rw [Function.comp_apply, offsetAt, List.take_succ_cons, Text.byteCount_cons, offsetAt,
    Nat.add_assoc]

/-- The scan cuts the text at each character, which is in range. -/
theorem findFrom_eq (hkeyword : IsCapitals keyword) (before rest : List Char)
    (quoted boundary : Bool) :
    findFrom keyword (before ++ rest) quoted boundary
        (Text.withOffsets (Text.byteCount before) rest) =
      .ok ((Dsl.findKeyword keyword quoted boundary rest).map fun n =>
        Text.byteCount before + offsetAt rest n) := by
  induction rest generalizing before quoted boundary with
  | nil => rfl
  | cons c rest ih =>
    have hnext := ih (before ++ [c])
    rw [List.append_assoc, List.singleton_append, Text.byteCount_append, Text.byteCount_cons,
      Text.byteCount_nil, Nat.add_zero] at hnext
    rw [Text.withOffsets, findFrom, Dsl.findKeyword]
    generalize (if c = Text.quoteMark then !quoted else quoted) = quoted
    cases hhere : !quoted && boundary with
    | false =>
      rw [Bool.false_and, if_neg Bool.noConfusion, if_neg Bool.noConfusion, map_offsetAt_cons,
        ← hnext]
      rfl
    | true =>
      rw [if_pos rfl, cutFrom_append, Bool.true_and]
      dsimp only [bind, Except.bind]
      rw [startsWithKeyword_eq hkeyword]
      cases Dsl.startsWithKeyword keyword (c :: rest) with
      | true => rfl
      | false =>
        rw [if_neg Bool.noConfusion, map_offsetAt_cons, ← hnext]
        rfl

/-- A keyword is found at the offset of its position. -/
theorem findKeyword_eq (hkeyword : IsCapitals keyword) (s : List Char) :
    findKeyword keyword s =
      .ok ((Dsl.findKeyword keyword false true s).map (offsetAt s)) := by
  have hscan := findFrom_eq hkeyword [] s false true
  simp only [Text.byteCount_nil, Nat.zero_add] at hscan
  exact hscan

/-- What is found by offset is found by position. -/
theorem of_findKeyword {offset : Nat} (hkeyword : IsCapitals keyword)
    (h : findKeyword keyword s = .ok (some offset)) :
    ∃ n, Dsl.findKeyword keyword false true s = some n ∧ offset = offsetAt s n := by
  rw [findKeyword_eq hkeyword, Except.ok.injEq] at h
  rcases Option.map_eq_some_iff.1 h with ⟨n, hfound, hoffset⟩
  exact ⟨n, hfound, hoffset.symm⟩

/-! ## Parentheses -/

/-- While a parenthesis is open, closing one does not take the depth below zero. -/
theorem closingFrom_eq (start depth : Nat) (quoted : Bool) (s : List Char) :
    closingFrom (depth + 1) quoted (Text.withOffsets start s) =
      .ok ((Dsl.closingParen (depth + 1) quoted s).map fun n => start + offsetAt s n) := by
  induction s generalizing start depth quoted with
  | nil => rfl
  | cons c rest ih =>
    rw [Text.withOffsets, closingFrom.eq_def, Dsl.closingParen.eq_def]
    dsimp only
    split
    · rw [map_offsetAt_cons, ih]
    · split
      · rw [map_offsetAt_cons, ih]
      · split
        · -- the scan ends at the last open parenthesis, before the depth would be zero
          cases depth with
          | zero => rfl
          | succ depth => exact (ih _ depth quoted).trans (by rw [map_offsetAt_cons])
        · rw [map_offsetAt_cons, ih]

/-- The parenthesis that closes the one at the start is found at the offset of its position. -/
theorem closingParen_eq (rest : List Char) :
    closingParen ('(' :: rest) =
      .ok ((Dsl.closingParen 0 false ('(' :: rest)).map (offsetAt ('(' :: rest))) := by
  have hquote : '(' ≠ Text.quoteMark := by decide
  have hscan := closingFrom_eq (0 + '('.utf8Size) 0 false rest
  rw [closingParen, Text.withOffsets, closingFrom, if_neg hquote, if_pos ⟨rfl, rfl⟩, hscan,
    closingParen_opening, ← map_offsetAt_cons]
  simp only [Nat.zero_add]

-- A text that does not begin with a parenthesis may close one that is not open.
example : closingParen ['a', ')'] = .error .outOfRange := rfl

/-! ## Arguments -/

/-- The argument list is cut out between its parentheses. -/
theorem splitArguments_eq (s : List Char) :
    splitArguments ('(' :: s) = lift (Dsl.splitArguments ('(' :: s)) := by
  rw [splitArguments, closingParen_eq, Dsl.splitArguments]
  cases hclose : Dsl.closingParen 0 false ('(' :: s) with
  | none => rfl
  | some close =>
    rcases split_of_closingParen hclose with ⟨arguments, rest, rfl, rfl⟩
    have hone : offsetAt ('(' :: (arguments ++ ')' :: rest)) 1 = 1 := rfl
    have hdrop : ('(' :: (arguments ++ ')' :: rest)).drop (arguments.length + 1) =
        [')'] ++ rest := by
      rw [List.drop_succ_cons, List.drop_left, List.singleton_append]
    generalize '(' :: (arguments ++ ')' :: rest) = text at hone hdrop ⊢
    have hbehind : offsetAt text (arguments.length + 1 + 1) =
        offsetAt text (arguments.length + 1) + 1 :=
      Text.offsetAt_add hdrop rfl (Text.forall_of_all (by decide))
    have hcut := cut_offsetAt (Nat.le_add_left 1 arguments.length) text
    have hrest := cutFrom_offsetAt text (arguments.length + 1 + 1)
    rw [hone] at hcut
    rw [hbehind] at hrest
    dsimp only [bind, Except.bind, Option.map_some]
    rw [hcut, hrest]
    rfl

/-- Each piece is cut from the end of the separator before it up to the next one. -/
theorem piecesFrom_eq (sep : Char) (before piece rest : List Char) (quoted : Bool) :
    piecesFrom sep (before ++ (piece ++ rest)) (Text.byteCount before) quoted
        (Text.withOffsets (Text.byteCount (before ++ piece)) rest) =
      .ok (piece.foldr Text.extendFirst (Text.splitUnquoted sep quoted rest)) := by
  induction rest generalizing before piece quoted with
  | nil =>
    rw [Text.withOffsets, piecesFrom, cutFrom_append, Text.splitUnquoted, Text.foldr_extendFirst]
    rfl
  | cons c rest ih =>
    have hsize : Text.byteCount (before ++ (piece ++ [c])) =
        Text.byteCount (before ++ piece) + c.utf8Size := by
      rw [← List.append_assoc, Text.byteCount_append, Text.byteCount_cons, Text.byteCount_nil,
        Nat.add_zero]
    have hlonger (quoted : Bool) := ih before (piece ++ [c]) quoted
    rw [hsize, List.append_assoc, List.singleton_append] at hlonger
    rw [Text.withOffsets, piecesFrom, Text.splitUnquoted]
    split
    · rw [hlonger, List.foldr_append]
      rfl
    · split
      · -- the next piece begins behind the separator
        have hnext := ih (before ++ (piece ++ [c])) [] quoted
        rw [List.append_nil, hsize, List.nil_append, List.append_assoc, List.append_assoc,
          List.singleton_append] at hnext
        rw [cut_append, hnext, Text.foldr_extendFirst, List.append_nil]
        rfl
      · rw [hlonger, List.foldr_append]
        rfl

end Checked

end ArchiveCatalog.Dsl
