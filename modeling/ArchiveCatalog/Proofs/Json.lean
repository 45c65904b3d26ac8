import ArchiveCatalog.Json.Record
import ArchiveCatalog.Proofs.Numeral
import Mathlib.Tactic.SplitIfs

namespace ArchiveCatalog.Json

/-! # JSON read back

Text is read back from its spelling and a value from its rendering, so references are read
back from the text they are written as. A number ends only where something follows that can
not go on a number, which is so behind every value that is rendered.
-/

/-! ## Spellings -/

/-- The spelling of a character is one piece, which stands for the character. -/
theorem exists_nextPiece?_spellChar (c : Char) (rest : List Char) :
    ∃ p, nextPiece? (spellChar c ++ rest) = some (p, spellChar c, rest) ∧
      ∀ ps, ofPieces? (p :: ps) = (ofPieces? ps).map (c :: ·) := by
  unfold spellChar
  split_ifs with hmarks hb hf hn hr ht hcontrol
  · refine ⟨.char c, ?_, fun _ => rfl⟩
    rcases hmarks with rfl | rfl <;> rfl
  · exact ⟨.char c, by subst hb; rfl, fun _ => rfl⟩
  · exact ⟨.char c, by subst hf; rfl, fun _ => rfl⟩
  · exact ⟨.char c, by subst hn; rfl, fun _ => rfl⟩
  · exact ⟨.char c, by subst hr; rfl, fun _ => rfl⟩
  · exact ⟨.char c, by subst ht; rfl, fun _ => rfl⟩
  · -- the other control characters are spelled by their number, which is no surrogate
    have hunit : ∀ n < 32, unit? '0' '0' (hexDigit (n / 16)) (hexDigit (n % 16)) = some n := by
      decide
    refine ⟨.unit c.toNat, ?_, ?_⟩
    · have hread := hunit c.toNat hcontrol
      simp [nextPiece?, hread]
    · intro ps
      have hlow : isLowSurrogate c.toNat = false := by
        simp only [isLowSurrogate, Bool.and_eq_false_iff, decide_eq_false_iff_not]
        omega
      have hhigh : isHighSurrogate c.toNat = false := by
        simp only [isHighSurrogate, Bool.and_eq_false_iff, decide_eq_false_iff_not]
        omega
      rw [ofPieces?.eq_def]
      simp [hlow, hhigh, Char.ofNat_toNat]
  · refine ⟨.char c, ?_, fun _ => rfl⟩
    rw [not_or] at hmarks
    simp [nextPiece?, hmarks.1, hmarks.2, hcontrol]

theorem pieces?_of_nextPiece? {s spelling rest : List Char} {p : Piece}
    (h : nextPiece? s = some (p, spelling, rest)) : pieces? s = (pieces? rest).map (p :: ·) := by
  have hne : s ≠ [] := by
    rintro rfl
    cases h
  rw [pieces?, if_neg hne]
  split
  · rename_i hnext
    rw [h] at hnext
    cases hnext
    rfl
  · rename_i hnext
    rw [h] at hnext
    cases hnext

/-- Text is read back from its spelling. -/
theorem read?_spell (s : String) : read? (spell s) = some s := by
  have hpieces : ∀ cs : List Char, (pieces? (cs.flatMap spellChar)).bind ofPieces? = some cs := by
    intro cs
    induction cs with
    | nil => simp [pieces?, ofPieces?]
    | cons c rest ih =>
      rcases exists_nextPiece?_spellChar c (rest.flatMap spellChar) with ⟨p, hnext, hpiece⟩
      rw [List.flatMap_cons, pieces?_of_nextPiece? hnext]
      rcases Option.bind_eq_some_iff.1 ih with ⟨ps, hps, hrest⟩
      rw [hps, Option.map_some, Option.bind_some, hpiece, hrest]
      rfl
  rw [read?, spell, hpieces, Option.map_some, String.ofList_toList]

namespace Value

theorem spelling?_of_nextPiece? {s spelling rest : List Char} {p : Piece}
    (h : nextPiece? s = some (p, spelling, rest)) :
    spelling? s = (spelling? rest).map fun (following, rest) => (spelling ++ following, rest) := by
  have hquote : s.head? ≠ some quote := by
    intro hhead
    obtain ⟨tail, rfl⟩ := List.head?_eq_some_iff.1 hhead
    cases h
  rw [spelling?, if_neg hquote]
  split
  · rename_i hnext
    rw [h] at hnext
    cases hnext
  · rename_i hnext
    rw [h] at hnext
    cases hnext
    rfl

/-- A spelling ends at the quote after it. -/
theorem spelling?_spell (s : String) (rest : List Char) :
    spelling? (spell s ++ quote :: rest) = some (spell s, rest) := by
  unfold spell
  induction s.toList with
  | nil =>
    have hhead : (quote :: rest).head? = some quote := rfl
    rw [List.flatMap_nil, List.nil_append, spelling?, if_pos hhead]
    rfl
  | cons c cs ih =>
    rcases exists_nextPiece?_spellChar c (cs.flatMap spellChar ++ quote :: rest) with ⟨p, hnext, -⟩
    rw [List.flatMap_cons, List.append_assoc, spelling?_of_nextPiece? hnext, ih]
    rfl

/-! ## Numbers -/

/-- What follows does not go on a number. -/
def EndsNumber (rest : List Char) : Prop :=
  ∀ c ∈ rest.head?, c.isDigit = false ∧ c ≠ '.' ∧ c ≠ 'e' ∧ c ≠ 'E'

theorem endsNumber_cons {c : Char} {rest : List Char}
    (h : c.isDigit = false ∧ c ≠ '.' ∧ c ≠ 'e' ∧ c ≠ 'E') : EndsNumber (c :: rest) := by
  intro d hd
  cases hd
  exact h

theorem takeWhile_digits {run rest : List Char} (hrun : ∀ c ∈ run, c.isDigit = true)
    (hrest : EndsNumber rest) : (run ++ rest).takeWhile Char.isDigit = run := by
  rw [List.takeWhile_append_of_pos hrun]
  cases rest with
  | nil => simp
  | cons c tail => simp [(hrest c rfl).1]

theorem fraction?_of_ends {rest : List Char} (h : EndsNumber rest) :
    fraction? rest = some ([], rest) := by
  unfold fraction?
  split
  · exact absurd rfl (h '.' rfl).2.1
  · rfl

theorem exponent?_of_ends {rest : List Char} (h : EndsNumber rest) :
    exponent? rest = some ([], rest) := by
  cases rest with
  | nil => rfl
  | cons c tail =>
    have hmark := (h c rfl).2.2
    simp [exponent?, hmark.1, hmark.2]

theorem head?_append_toDigits (n : Nat) (rest : List Char) :
    (Nat.toDigits 10 n ++ rest).head? = (Nat.toDigits 10 n).head? := by
  rw [List.head?_append]
  cases hdigits : Nat.toDigits 10 n with
  | nil => exact absurd hdigits Nat.toDigits_ne_nil
  | cons c tail => rfl

/-- The first digit of a number is a zero only if the number is. -/
theorem head?_toDigits {n : Nat} (h : (Nat.toDigits 10 n).head? = some '0') : n = 0 := by
  induction n using Nat.strongRecOn with
  | ind n ih =>
    by_cases hlt : n < 10
    · rw [Nat.toDigits_of_lt_base hlt] at h
      have hdigit : ∀ m < 10, m.digitChar = '0' → m = 0 := by decide
      exact hdigit n hlt (Option.some.inj h)
    · -- all digits but the last are those of the tenth part
      have hle : 10 ≤ n := Nat.le_of_not_lt hlt
      rw [Nat.toDigits_of_base_le (by decide) hle, head?_append_toDigits] at h
      have hzero := ih (n / 10) (by omega) h
      omega

theorem wholePart?_toDigits (n : Nat) {rest : List Char} (h : EndsNumber rest) :
    wholePart? (Nat.toDigits 10 n ++ rest) = some (Nat.toDigits 10 n, rest) := by
  have hdigits : ∀ c ∈ Nat.toDigits 10 n, c.isDigit = true := fun c hc =>
    Nat.isDigit_of_mem_toDigits (by decide) (by decide) hc
  unfold wholePart?
  split
  · rename_i tail hzero
    -- a leading zero stands for zero alone, so that no digit can follow it
    have hn : n = 0 := by
      apply head?_toDigits
      rw [← head?_append_toDigits n rest, hzero]
      rfl
    subst hn
    rw [Nat.toDigits_zero, List.singleton_append, List.cons.injEq] at hzero
    rcases hzero with ⟨-, rfl⟩
    rw [Nat.toDigits_zero]
    cases rest with
    | nil => rfl
    | cons c tail => simp [(h c rfl).1]
  · have hrun := takeWhile_digits hdigits h
    unfold digits?
    dsimp only
    rw [hrun, List.drop_left]
    simp [Nat.toDigits_ne_nil]

theorem number?_toDigits (n : Nat) {rest : List Char} (h : EndsNumber rest) :
    number? (Nat.toDigits 10 n ++ rest) = some (Nat.toDigits 10 n, rest) := by
  have hwhole := wholePart?_toDigits n h
  unfold number?
  split
  rename_i minus s hsign
  split at hsign
  · -- no number without a sign begins with one
    rename_i tail hs
    have hhead := head?_append_toDigits n rest
    rw [hs, List.head?_cons] at hhead
    have hdigit := Nat.isDigit_of_mem_toDigits (b := 10) (n := n) (c := '-') (by decide) (by decide)
      (List.mem_of_head? hhead.symm)
    exact absurd hdigit (by decide)
  · cases hsign
    simp [hwhole, fraction?_of_ends h, exponent?_of_ends h]

/-! ## Values -/

mutual

/-- Numbers are natural and texts are spelled as `spell` does. -/
def IsPlain : Value → Prop
  | .null | .boolean _ => True
  | .number spelling => ∃ n : Nat, spelling = Nat.toDigits 10 n
  | .text spelling => ∃ s, spelling = spell s
  | .list items => ArePlain items
  | .object fields => HasPlainFields fields

/-- All values of the list are plain. -/
def ArePlain : List Value → Prop
  | [] => True
  | v :: rest => IsPlain v ∧ ArePlain rest

/-- All keys are spelled as `spell` does, and all values are plain. -/
def HasPlainFields : List (List Char × Value) → Prop
  | [] => True
  | (key, v) :: rest => (∃ s, key = spell s) ∧ IsPlain v ∧ HasPlainFields rest

end

/-- The rendering of a value begins with a character that is neither blank nor closes a list. -/
theorem render_eq_cons {v : Value} (h : v.IsPlain) :
    ∃ c tail, v.render = c :: tail ∧ isBlank c = false ∧ c ≠ ']' := by
  cases v with
  | null => exact ⟨'n', "ull".toList, rfl, rfl, by decide⟩
  | boolean b =>
    cases b with
    | true => exact ⟨'t', "rue".toList, rfl, rfl, by decide⟩
    | false => exact ⟨'f', "alse".toList, rfl, rfl, by decide⟩
  | number spelling =>
    obtain ⟨n, rfl⟩ := h
    cases hdigits : Nat.toDigits 10 n with
    | nil => exact absurd hdigits Nat.toDigits_ne_nil
    | cons c tail =>
      have hdigit := Nat.isDigit_of_mem_toDigits (b := 10) (n := n) (c := c) (by decide) (by decide)
        (hdigits ▸ List.mem_cons_self)
      refine ⟨c, tail, by rw [render], ?_, ?_⟩
      · simp only [isBlank, Bool.or_eq_false_iff, beq_eq_false_iff_ne]
        refine ⟨⟨⟨?_, ?_⟩, ?_⟩, ?_⟩ <;> rintro rfl <;> cases hdigit
      · rintro rfl
        cases hdigit
  | text spelling => exact ⟨quote, spelling ++ [quote], by rw [render, quoted]; rfl, rfl, by decide⟩
  | list items => exact ⟨'[', _, by rw [render]; rfl, rfl, by decide⟩
  | object fields => exact ⟨'\x7b', _, by rw [render]; rfl, rfl, by decide⟩

theorem skip_cons {c : Char} {rest : List Char} (h : isBlank c = false) :
    skip (c :: rest) = c :: rest := by
  simp [skip, h]

theorem value?_toDigits (n depth : Nat) {rest : List Char} (h : EndsNumber rest) :
    value? (depth + 1) (Nat.toDigits 10 n ++ rest) = some (.number (Nat.toDigits 10 n), rest) := by
  have hnumber := number?_toDigits n h
  cases hdigits : Nat.toDigits 10 n with
  | nil => exact absurd hdigits Nat.toDigits_ne_nil
  | cons c tail =>
    have hdigit := Nat.isDigit_of_mem_toDigits (b := 10) (n := n) (c := c) (by decide) (by decide)
      (hdigits ▸ List.mem_cons_self)
    have hne : ∀ d : Char, d.isDigit = false → c ≠ d := by
      rintro d hd rfl
      rw [hdigit] at hd
      cases hd
    have hblank : isBlank c = false := by
      simp [isBlank, hne ' ' rfl, hne '\n' rfl, hne '\t' rfl, hne '\r' rfl]
    rw [hdigits] at hnumber
    rw [List.cons_append] at hnumber ⊢
    unfold value?
    rw [skip_cons hblank]
    simp [hne 'n' rfl, hne 't' rfl, hne 'f' rfl, hne quote rfl, hne '[' rfl, hne '\x7b' rfl,
      hnumber]

theorem word?_of_ne {c d : Char} (h : c ≠ d) (rest : List Char) :
    word? (String.singleton d) (c :: rest) = none := by
  simp [word?, Ne.symm h]

/-- Rendered items do not begin with the bracket that closes a list. -/
theorem skip_renderItems (v : Value) (vs : List Value) (h : v.IsPlain) (rest : List Char) :
    word? "]" (skip (withCommas (renderItems (v :: vs)) ++ rest)) = none := by
  obtain ⟨c, tail, hrender, hblank, hclose⟩ := render_eq_cons h
  obtain ⟨more, hmore⟩ : ∃ more, withCommas (renderItems (v :: vs)) = c :: more := by
    cases vs with
    | nil => exact ⟨tail, hrender⟩
    | cons w ws => exact ⟨tail ++ ',' :: withCommas (renderItems (w :: ws)), by
        rw [← List.cons_append, ← hrender]; rfl⟩
  rw [hmore, List.cons_append, skip_cons hblank]
  exact word?_of_ne hclose _

/-- A key begins with a quote. -/
theorem skip_quoted (spelling rest : List Char) :
    skip (quoted spelling ++ rest) = quoted spelling ++ rest := by
  rw [quoted]
  exact skip_cons (by decide)

/-- Rendered fields do not begin with the brace that closes an object. -/
theorem skip_renderFields (f : List Char × Value) (fs : List (List Char × Value))
    (rest : List Char) :
    word? "\x7d" (skip (withCommas (renderFields (f :: fs)) ++ rest)) = none := by
  obtain ⟨more, hmore⟩ : ∃ more, withCommas (renderFields (f :: fs)) = quoted f.1 ++ more := by
    cases fs with
    | nil => exact ⟨':' :: f.2.render, rfl⟩
    | cons g gs => exact ⟨':' :: f.2.render ++ ',' :: withCommas (renderFields (g :: gs)), by
        rw [← List.append_assoc]; rfl⟩
  have hbrace : quote ≠ '\x7d' := by decide
  rw [hmore, List.append_assoc, skip_quoted, quoted]
  exact word?_of_ne hbrace _

theorem key?_quoted (s : String) (rest : List Char) :
    key? (quoted (spell s) ++ ':' :: rest) = some (spell s, rest) := by
  have hspelling :
      quoted (spell s) ++ ':' :: rest = quote :: (spell s ++ quote :: ':' :: rest) := by
    simp [quoted]
  have hcolon : word? ":" (skip (':' :: rest)) = some rest := by
    rw [skip_cons (by decide)]
    rfl
  rw [hspelling, key?, if_pos rfl, spelling?_spell]
  simp [hcolon]

mutual

/-- A plain value is read back from its rendering, whatever follows. -/
theorem value?_render : ∀ v : Value, v.IsPlain → ∀ (depth : Nat) (rest : List Char),
    2 * v.render.length ≤ depth → EndsNumber rest →
    value? depth (v.render ++ rest) = some (v, rest)
  | .null, _, depth, rest, hdepth, _ => by
    obtain ⟨depth, rfl⟩ : ∃ d, depth = d + 1 := ⟨depth - 1, by simp [render] at hdepth; omega⟩
    rfl
  | .boolean b, _, depth, rest, hdepth, _ => by
    obtain ⟨depth, rfl⟩ : ∃ d, depth = d + 1 :=
      ⟨depth - 1, by cases b <;> simp [render] at hdepth <;> omega⟩
    cases b <;> rfl
  | .number spelling, ⟨n, hn⟩, depth, rest, hdepth, hrest => by
    subst hn
    have hpos : 0 < (Nat.toDigits 10 n).length := Nat.length_toDigits_pos
    rw [render] at hdepth ⊢
    obtain ⟨depth, rfl⟩ : ∃ d, depth = d + 1 := ⟨depth - 1, by omega⟩
    exact value?_toDigits n depth hrest
  | .text spelling, ⟨s, hs⟩, depth, rest, hdepth, _ => by
    subst hs
    obtain ⟨depth, rfl⟩ : ∃ d, depth = d + 1 :=
      ⟨depth - 1, by simp [render, quoted] at hdepth; omega⟩
    have hread := spelling?_spell s rest
    have hblank : isBlank quote = false := by decide
    have hrender : (Value.text (spell s)).render ++ rest = quote :: (spell s ++ quote :: rest) := by
      simp [render, quoted]
    rw [hrender, value?, skip_cons hblank]
    simp [quote] at hread ⊢
    simp [hread]
  | .list [], _, depth, rest, hdepth, _ => by
    obtain ⟨depth, rfl⟩ : ∃ d, depth = d + 1 := ⟨depth - 1, by simp [render] at hdepth; omega⟩
    rfl
  | .list (v :: vs), h, depth, rest, hdepth, _ => by
    have hrender : (Value.list (v :: vs)).render ++ rest =
        '[' :: (withCommas (renderItems (v :: vs)) ++ ']' :: rest) := by
      simp [render]
    have hlength : (Value.list (v :: vs)).render.length =
        (withCommas (renderItems (v :: vs))).length + 2 := by
      simp [render]
    rw [hlength] at hdepth
    obtain ⟨depth, rfl⟩ : ∃ d, depth = d + 1 := ⟨depth - 1, by omega⟩
    have hread := items?_render v vs h.1 h.2 depth rest (by omega)
    have hopen := skip_renderItems v vs h.1 (']' :: rest)
    rw [hrender, value?, skip_cons (by decide)]
    simp [quote, hopen, hread]
  | .object [], _, depth, rest, hdepth, _ => by
    obtain ⟨depth, rfl⟩ : ∃ d, depth = d + 1 := ⟨depth - 1, by simp [render] at hdepth; omega⟩
    rfl
  | .object (f :: fs), h, depth, rest, hdepth, _ => by
    have hrender : (Value.object (f :: fs)).render ++ rest =
        '\x7b' :: (withCommas (renderFields (f :: fs)) ++ '\x7d' :: rest) := by
      simp [render]
    have hlength : (Value.object (f :: fs)).render.length =
        (withCommas (renderFields (f :: fs))).length + 2 := by
      simp [render]
    rw [hlength] at hdepth
    obtain ⟨depth, rfl⟩ : ∃ d, depth = d + 1 := ⟨depth - 1, by omega⟩
    have hread := fields?_render f fs h depth rest (by omega)
    have hopen := skip_renderFields f fs ('\x7d' :: rest)
    rw [hrender, value?, skip_cons (by decide)]
    simp [quote, hopen, hread]

/-- Plain items are read back up to the bracket that closes their list. -/
theorem items?_render : ∀ (v : Value) (vs : List Value), v.IsPlain → ArePlain vs →
    ∀ (depth : Nat) (rest : List Char),
    2 * (withCommas (renderItems (v :: vs))).length + 2 ≤ depth →
    items? depth (withCommas (renderItems (v :: vs)) ++ ']' :: rest) = some (v :: vs, rest)
  | v, [], hv, _, depth, rest, hdepth => by
    obtain ⟨depth, rfl⟩ : ∃ d, depth = d + 1 := ⟨depth - 1, by omega⟩
    have hone : withCommas (renderItems [v]) = v.render := rfl
    rw [hone] at hdepth ⊢
    have hread := value?_render v hv depth (']' :: rest) (by omega) (endsNumber_cons (by decide))
    rw [items?, hread]
    rfl
  | v, w :: ws, hv, hvs, depth, rest, hdepth => by
    obtain ⟨depth, rfl⟩ : ∃ d, depth = d + 1 := ⟨depth - 1, by omega⟩
    have hmore : withCommas (renderItems (v :: w :: ws)) =
        v.render ++ ',' :: withCommas (renderItems (w :: ws)) := rfl
    rw [hmore, List.length_append, List.length_cons] at hdepth
    rw [hmore, List.append_assoc, List.cons_append]
    have hread := value?_render v hv depth
      (',' :: (withCommas (renderItems (w :: ws)) ++ ']' :: rest))
      (by omega) (endsNumber_cons (by decide))
    have hrest := items?_render w ws hvs.1 hvs.2 depth rest (by omega)
    rw [items?, hread]
    simp [skip_cons, isBlank, hrest]

/-- Plain fields are read back up to the brace that closes their object. -/
theorem fields?_render : ∀ (f : List Char × Value) (fs : List (List Char × Value)),
    HasPlainFields (f :: fs) → ∀ (depth : Nat) (rest : List Char),
    2 * (withCommas (renderFields (f :: fs))).length + 2 ≤ depth →
    fields? depth (withCommas (renderFields (f :: fs)) ++ '\x7d' :: rest) = some (f :: fs, rest)
  | (key, v), [], h, depth, rest, hdepth => by
    obtain ⟨⟨s, rfl⟩, hv, -⟩ := h
    have hone :
        withCommas (renderFields [(spell s, v)]) = quoted (spell s) ++ ':' :: v.render := rfl
    rw [hone, List.length_append, List.length_cons] at hdepth
    rw [hone, List.append_assoc, List.cons_append]
    obtain ⟨depth, rfl⟩ : ∃ d, depth = d + 1 := ⟨depth - 1, by omega⟩
    have hread := value?_render v hv depth ('\x7d' :: rest) (by omega)
      (endsNumber_cons (by decide))
    rw [fields?, skip_quoted, key?_quoted]
    simp [hread, skip_cons, isBlank]
  | (key, v), g :: gs, h, depth, rest, hdepth => by
    obtain ⟨⟨s, rfl⟩, hv, hgs⟩ := h
    have hmore : withCommas (renderFields ((spell s, v) :: g :: gs)) =
        quoted (spell s) ++ ':' :: v.render ++ ',' :: withCommas (renderFields (g :: gs)) := rfl
    rw [hmore, List.append_assoc, List.length_append, List.cons_append, List.length_cons,
      List.length_append, List.length_cons] at hdepth
    rw [hmore, List.append_assoc, List.append_assoc, List.cons_append, List.cons_append]
    obtain ⟨depth, rfl⟩ : ∃ d, depth = d + 1 := ⟨depth - 1, by omega⟩
    have hread := value?_render v hv depth
      (',' :: (withCommas (renderFields (g :: gs)) ++ '\x7d' :: rest)) (by omega)
      (endsNumber_cons (by decide))
    have hrest := fields?_render g gs hgs depth rest (by omega)
    rw [fields?, skip_quoted, key?_quoted]
    simp [hread, skip_cons, isBlank, hrest]

end

/-- A plain value is the value of its rendering. -/
theorem parse?_render {v : Value} (h : v.IsPlain) : parse? v.render = some v := by
  have hread := value?_render v h (2 * v.render.length + 1) [] (by omega) (fun c hc => by cases hc)
  rw [List.append_nil] at hread
  rw [parse?, hread]
  rfl

end Value

/-! ## References -/

theorem asText_ofText (s : String) : asText (ofText s) = some s := read?_spell s

theorem optionally_ofOptional (s : Option String) :
    optionally asText (ofOptional s) = some s := by
  cases s with
  | none => rfl
  | some s =>
    have hread := asText_ofText s
    simp [ofOptional, ofText, optionally] at hread ⊢
    simp [hread]

theorem asNatural_toDigits {n : Nat} (h : n ≤ greatestNatural) :
    asNatural (.number (Nat.toDigits 10 n)) = some n := by
  simp [asNatural, Text.readNat?_toDigits, h]

/-- The file of a reference is not larger than what can be counted. -/
def CountsSize (r : FileReference) : Prop := r.size ≤ greatestNatural

/-- A reference is read back from its value. -/
theorem asReference_ofReference {r : FileReference} (h : CountsSize r) :
    asReference (ofReference r) = some r := by
  have hfields : asFields referenceFields (ofReference r) =
      some [("original_uri", ofText r.original), ("datastore_uri", ofText r.stored),
        ("file_size", .number (Nat.repr r.size).toList), ("mime_type", ofOptional r.mimeType)] := by
    simp [asFields, ofReference, knownFields, field, read?_spell, referenceFields, List.lookup_cons]
  have hsize := asNatural_toDigits h
  simp [asReference, hfields, required, nullable, List.lookup_cons, asText_ofText, hsize,
    optionally_ofOptional]

theorem isPlain_ofReference (r : FileReference) : (ofReference r).IsPlain := by
  have hmime : (ofOptional r.mimeType).IsPlain := by
    cases r.mimeType with
    | none => trivial
    | some s => exact ⟨s, rfl⟩
  exact ⟨⟨_, rfl⟩, ⟨_, rfl⟩, ⟨_, rfl⟩, ⟨_, rfl⟩, ⟨_, rfl⟩, ⟨r.size, Nat.toList_repr⟩,
    ⟨_, rfl⟩, hmime, trivial⟩

/-- References are read back from their text. -/
theorem readReferences_writeReferences {references : List FileReference}
    (h : ∀ r ∈ references, CountsSize r) :
    readReferences (writeReferences references) = .ok references := by
  have hplain : (Value.list (references.map ofReference)).IsPlain := by
    show Value.ArePlain _
    induction references with
    | nil => trivial
    | cons r rest ih =>
      exact ⟨isPlain_ofReference r, ih fun r hr => h r (List.mem_cons_of_mem _ hr)⟩
  have hitems : (references.map ofReference).mapM asReference = some references := by
    clear hplain
    induction references with
    | nil => rfl
    | cons r rest ih =>
      have hone := asReference_ofReference (h r List.mem_cons_self)
      have hrest := ih fun r hr => h r (List.mem_cons_of_mem _ hr)
      simp [hone, hrest]
  simp [readReferences, writeReferences, Value.parse?_render hplain, asList, hitems]

end ArchiveCatalog.Json
