import Mathlib.Data.List.Basic
import Mathlib.Data.List.TakeWhile
import ArchiveCatalog.Text.Blank
import ArchiveCatalog.Text.Pieces

namespace ArchiveCatalog.Text

/-! # Text taken apart

Trimming takes the blanks off that were put around a text, and cutting gives back the pieces
that were joined, where no piece holds the separator outside its quotes.
-/

/-! ## Runs of characters -/

/-- What holds of every character of a text can be checked one by one. -/
theorem forall_of_all {p : Char → Prop} [DecidablePred p] {s : List Char}
    (h : s.all (fun c => decide (p c)) = true) : ∀ c ∈ s, p c :=
  fun c hc => of_decide_eq_true (List.all_eq_true.1 h c hc)

/-- The text does not go on with such a character. -/
def StopsAt (p : Char → Bool) (rest : List Char) : Prop := ∀ c ∈ rest.head?, p c = false

theorem stopsAt_cons {p : Char → Bool} {c : Char} (h : p c = false) (rest : List Char) :
    StopsAt p (c :: rest) := by
  intro d hd
  cases hd
  exact h

variable {p : Char → Bool} {run rest : List Char}

theorem takeWhile_run (hrun : ∀ c ∈ run, p c = true) (hrest : StopsAt p rest) :
    (run ++ rest).takeWhile p = run := by
  rw [List.takeWhile_append_of_pos hrun]
  cases rest with
  | nil => simp
  | cons c tail => simp [hrest c rfl]

theorem dropWhile_run (hrun : ∀ c ∈ run, p c = true) (hrest : StopsAt p rest) :
    (run ++ rest).dropWhile p = rest := by
  rw [List.dropWhile_append_of_pos hrun]
  cases rest with
  | nil => rfl
  | cons c tail => simp [hrest c rfl]

theorem stopsAt_dropWhile (p : Char → Bool) (s : List Char) : StopsAt p (s.dropWhile p) := by
  intro c hc
  have hfirst := List.head?_dropWhile_not p s
  rw [Option.mem_def.1 hc] at hfirst
  exact hfirst

/-! ## Trimming -/

/-- There are only blanks, if anything. -/
def AllBlank (s : List Char) : Prop := ∀ c ∈ s, isBlank c = true

theorem allBlank_nil : AllBlank [] := fun _ hc => absurd hc List.not_mem_nil

theorem allBlank_space : AllBlank [' '] := by
  intro c hc
  rw [List.mem_singleton.1 hc]
  decide

theorem AllBlank.append {s t : List Char} (hs : AllBlank s) (ht : AllBlank t) :
    AllBlank (s ++ t) := by
  intro c hc
  rcases List.mem_append.1 hc with hc | hc
  · exact hs c hc
  · exact ht c hc

theorem allBlank_takeWhile (s : List Char) : AllBlank (s.takeWhile isBlank) :=
  fun _ hc => List.mem_takeWhile_imp hc

/-- No blank stands at either end. -/
structure Trimmed (s : List Char) : Prop where
  first : ∀ c ∈ s.head?, isBlank c = false
  last : ∀ c ∈ s.getLast?, isBlank c = false

theorem trimmed_of_not_blank {s : List Char} (h : ∀ c ∈ s, isBlank c = false) : Trimmed s where
  first c hc := h c (List.mem_of_mem_head? hc)
  last c hc := h c (List.mem_of_mem_getLast? hc)

theorem trimmed_quoteMark : Trimmed [quoteMark] :=
  trimmed_of_not_blank (forall_of_all (by decide))

/-- A text is trimmed if its ends are no blanks, whatever stands between them. -/
theorem trimmed_of_ends {first last : Char} (hfirst : isBlank first = false)
    (hlast : isBlank last = false) (inner : List Char) : Trimmed (first :: (inner ++ [last])) where
  first c hc := by
    cases hc
    exact hfirst
  last c hc := by
    rw [← List.cons_append, List.getLast?_concat] at hc
    cases hc
    exact hlast

/-- A text is trimmed if its parts at both ends are. -/
theorem Trimmed.around {s t : List Char} (hs : Trimmed s) (hs' : s ≠ []) (ht : Trimmed t)
    (ht' : t ≠ []) (inner : List Char) : Trimmed (s ++ (inner ++ t)) where
  first c hc := by
    rw [List.head?_append_of_ne_nil s hs'] at hc
    exact hs.first c hc
  last c hc := by
    rw [← List.append_assoc, List.getLast?_append_of_ne_nil _ ht'] at hc
    exact ht.last c hc

theorem trimStart_append {blanks : List Char} (h : AllBlank blanks) (s : List Char) :
    trimStart (blanks ++ s) = trimStart s :=
  List.dropWhile_append_of_pos h

theorem trimEnd_append {s blanks : List Char} (hs : ∀ c ∈ s.getLast?, isBlank c = false)
    (h : AllBlank blanks) : trimEnd (s ++ blanks) = s := by
  have hblanks : ∀ c ∈ blanks.reverse, isBlank c = true := fun c hc => h c (List.mem_reverse.1 hc)
  have hstop : StopsAt isBlank s.reverse := by
    intro c hc
    rw [List.head?_reverse] at hc
    exact hs c hc
  rw [trimEnd, List.reverse_append, dropWhile_run hblanks hstop, List.reverse_reverse]

/-- Trimming takes off the blanks around a trimmed text. -/
theorem trim_padded {before s after : List Char} (hbefore : AllBlank before) (hs : Trimmed s)
    (hafter : AllBlank after) : trim (before ++ (s ++ after)) = s := by
  rw [trim, trimStart_append hbefore]
  cases s with
  | nil =>
    have hnone := trimStart_append hafter []
    rw [List.append_nil] at hnone
    rw [List.nil_append, hnone]
    rfl
  | cons c tail =>
    have hstart : trimStart (c :: tail ++ after) = c :: tail ++ after := by
      rw [List.cons_append, trimStart, List.dropWhile_cons, hs.first c rfl]
      rfl
    rw [hstart, trimEnd_append hs.last hafter]

theorem trim_of_trimmed {s : List Char} (hs : Trimmed s) : trim s = s := by
  have hpadded := trim_padded allBlank_nil hs allBlank_nil
  rwa [List.nil_append, List.append_nil] at hpadded

theorem map_trim {pieces : List String} (h : ∀ piece ∈ pieces, Trimmed piece.toList) :
    (pieces.map String.toList).map trim = pieces.map String.toList := by
  rw [List.map_map]
  exact List.map_congr_left fun piece hp => trim_of_trimmed (h piece hp)

/-! ## Cutting at separators -/

variable {sep : Char}

theorem splitOn_of_not_mem {piece : List Char} (h : sep ∉ piece) : splitOn sep piece = [piece] := by
  induction piece with
  | nil => rfl
  | cons c rest ih =>
    have hne : c ≠ sep := fun heq => h (heq ▸ List.mem_cons_self)
    rw [splitOn, if_neg hne, ih fun hmem => h (List.mem_cons_of_mem c hmem)]
    rfl

theorem splitOn_append {piece : List Char} (h : sep ∉ piece) (rest : List Char) :
    splitOn sep (piece ++ sep :: rest) = piece :: splitOn sep rest := by
  induction piece with
  | nil => rw [List.nil_append, splitOn, if_pos rfl]
  | cons c tail ih =>
    have hne : c ≠ sep := fun heq => h (heq ▸ List.mem_cons_self)
    rw [List.cons_append, splitOn, if_neg hne, ih fun hmem => h (List.mem_cons_of_mem c hmem)]
    rfl

theorem cutAt_append {before : List Char} (h : sep ∉ before) (rest : List Char) :
    cutAt sep (before ++ sep :: rest) = some (before, rest) := by
  induction before with
  | nil => rw [List.nil_append, cutAt, if_pos rfl]
  | cons c tail ih =>
    have hne : c ≠ sep := fun heq => h (heq ▸ List.mem_cons_self)
    rw [List.cons_append, cutAt, if_neg hne, ih fun hmem => h (List.mem_cons_of_mem c hmem)]
    rfl

theorem dropStart_append (start rest : List Char) :
    dropStart start (start ++ rest) = some rest := by
  have hstarts : start.isPrefixOf (start ++ rest) = true :=
    List.isPrefixOf_iff_prefix.2 (List.prefix_append start rest)
  rw [dropStart, if_pos hstarts, List.drop_left]

theorem dropTail_append (before tail : List Char) :
    dropTail tail (before ++ tail) = some before := by
  have hends : tail.isSuffixOf (before ++ tail) = true :=
    List.isSuffixOf_iff_suffix.2 (List.suffix_append before tail)
  rw [dropTail, if_pos hends, List.length_append, Nat.add_sub_cancel, List.take_left]

theorem toList_join_cons (glue s t : String) (rest : List String) :
    (join glue (s :: t :: rest)).toList =
      s.toList ++ (glue.toList ++ (join glue (t :: rest)).toList) := by
  rw [join, String.toList_append, String.toList_append, List.append_assoc]
  exact List.cons_ne_nil t rest

theorem toList_join (glue s : String) (rest : List String) :
    (join glue (s :: rest)).toList =
      s.toList ++ rest.flatMap fun t => glue.toList ++ t.toList := by
  induction rest generalizing s with
  | nil => rw [join, List.flatMap_nil, List.append_nil]
  | cons t rest ih => rw [toList_join_cons, ih, List.flatMap_cons, List.append_assoc]

/-- Pieces that were joined are cut apart again. -/
theorem splitOn_join {glue : String} (hglue : glue.toList = [sep]) {pieces : List String}
    (hne : pieces ≠ []) (h : ∀ piece ∈ pieces, sep ∉ piece.toList) :
    splitOn sep (join glue pieces).toList = pieces.map String.toList := by
  induction pieces with
  | nil => exact absurd rfl hne
  | cons s rest ih =>
    have hs := h s List.mem_cons_self
    cases rest with
    | nil => exact splitOn_of_not_mem hs
    | cons t rest =>
      have hrest := ih (List.cons_ne_nil t rest) fun piece hp => h piece (List.mem_cons_of_mem s hp)
      rw [toList_join_cons, hglue, List.singleton_append, splitOn_append hs, hrest]
      rfl

/-! ## Quotes -/

/-- Text whose quotes are all closed and whose characters outside of them are plain. -/
inductive Quoting (plain : Char → Prop) : List Char → Prop
  | nil : Quoting plain []
  | cons {c : Char} {rest : List Char} :
      c ≠ quoteMark → plain c → Quoting plain rest → Quoting plain (c :: rest)
  | quoted {value rest : List Char} :
      quoteMark ∉ value → Quoting plain rest →
      Quoting plain (quoteMark :: (value ++ quoteMark :: rest))

namespace Quoting

variable {plain : Char → Prop}

theorem append {s t : List Char} (hs : Quoting plain s) (ht : Quoting plain t) :
    Quoting plain (s ++ t) := by
  induction hs with
  | nil => exact ht
  | cons hquote hplain _ ih => exact .cons hquote hplain ih
  | @quoted value rest hvalue _ ih =>
    rw [List.cons_append, List.append_assoc, List.cons_append]
    exact .quoted hvalue ih

theorem of_forall {s : List Char} (h : ∀ c ∈ s, c ≠ quoteMark ∧ plain c) : Quoting plain s := by
  induction s with
  | nil => exact .nil
  | cons c rest ih =>
    have hc := h c List.mem_cons_self
    exact .cons hc.1 hc.2 (ih fun d hd => h d (List.mem_cons_of_mem c hd))

theorem join {glue : String} (hglue : Quoting plain glue.toList) {pieces : List String}
    (h : ∀ piece ∈ pieces, Quoting plain piece.toList) :
    Quoting plain (Text.join glue pieces).toList := by
  induction pieces with
  | nil => exact .nil
  | cons s rest ih =>
    have hs := h s List.mem_cons_self
    cases rest with
    | nil => exact hs
    | cons t rest =>
      rw [toList_join_cons]
      exact hs.append (hglue.append (ih fun piece hp => h piece (List.mem_cons_of_mem s hp)))

end Quoting

theorem splitUnquoted_quoted {value : List Char} (h : quoteMark ∉ value) (rest : List Char) :
    splitUnquoted sep true (value ++ quoteMark :: rest) =
      (value ++ [quoteMark]).foldr extendFirst (splitUnquoted sep false rest) := by
  induction value with
  | nil => rw [List.nil_append, splitUnquoted, if_pos rfl]; rfl
  | cons c tail ih =>
    have hquote : c ≠ quoteMark := fun heq => h (heq ▸ List.mem_cons_self)
    rw [List.cons_append, splitUnquoted, if_neg hquote, if_neg (by simp),
      ih fun hmem => h (List.mem_cons_of_mem c hmem)]
    rfl

/-- A text that holds the separator in quotes only stays in one piece. -/
theorem splitUnquoted_append {s : List Char} (h : Quoting (· ≠ sep) s) (rest : List Char) :
    splitUnquoted sep false (s ++ rest) = s.foldr extendFirst (splitUnquoted sep false rest) := by
  induction h with
  | nil => rfl
  | cons hquote hplain _ ih =>
    rw [List.cons_append, splitUnquoted, if_neg hquote, if_neg fun hsep => hplain hsep.1, ih]
    rfl
  | @quoted value tail hvalue _ ih =>
    rw [List.cons_append, List.append_assoc, List.cons_append, splitUnquoted, if_pos rfl,
      Bool.not_false, splitUnquoted_quoted hvalue, ih]
    simp only [List.foldr_cons, List.foldr_append, List.foldr_nil]

theorem foldr_extendFirst (s piece : List Char) (pieces : List (List Char)) :
    s.foldr extendFirst (piece :: pieces) = (s ++ piece) :: pieces := by
  induction s with
  | nil => rfl
  | cons c rest ih => rw [List.foldr_cons, ih]; rfl

/-- Joined texts are cut apart again if they hold the separator in quotes only. What stands
behind the separator goes to the piece after it. -/
theorem splitUnquoted_join {glue : String} {padding : List Char} (hsep : sep ≠ quoteMark)
    (hglue : glue.toList = sep :: padding) (hpadding : Quoting (· ≠ sep) padding) {s : String}
    {pieces : List String} (h : ∀ piece ∈ s :: pieces, Quoting (· ≠ sep) piece.toList) :
    splitUnquoted sep false (join glue (s :: pieces)).toList =
      s.toList :: pieces.map (padding ++ String.toList ·) := by
  induction pieces generalizing s with
  | nil =>
    have hs := splitUnquoted_append (h s List.mem_cons_self) []
    rw [List.append_nil, splitUnquoted, foldr_extendFirst, List.append_nil] at hs
    exact hs
  | cons t rest ih =>
    have hrest := ih fun piece hp => h piece (List.mem_cons_of_mem s hp)
    have hcut : splitUnquoted sep false (sep :: (padding ++ (join glue (t :: rest)).toList)) =
        [] :: (padding ++ t.toList) :: rest.map (padding ++ String.toList ·) := by
      rw [splitUnquoted, if_neg hsep, if_pos ⟨rfl, rfl⟩, splitUnquoted_append hpadding, hrest,
        foldr_extendFirst]
    rw [toList_join_cons, hglue, List.cons_append,
      splitUnquoted_append (h s List.mem_cons_self), hcut, foldr_extendFirst, List.append_nil]
    rfl

end ArchiveCatalog.Text
