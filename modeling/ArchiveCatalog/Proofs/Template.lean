import ArchiveCatalog.Catalog.Search
import ArchiveCatalog.Proofs.Text

namespace ArchiveCatalog.Template

/-! # Templates filled in

A template is put together from plain text, keys in braces and bare keys, where a bare key ends
before a character that could not go on with it. The scan finds exactly these parts again, so the
text of a template is the text of its parts one after the other. Values are put in as they are,
also where they look like placeholders.
-/

/-- A part of a template as it is meant. -/
inductive Part
  | plain (text : List Char)
  | braced (key : List Char)
  | bare (key : List Char)
  deriving DecidableEq

/-- An ASCII letter or digit, an underscore or a point. -/
def GoesOn (c : Char) : Prop := c.isAlphanum = true ∨ c = '_' ∨ c = '.'

instance (c : Char) : Decidable (GoesOn c) :=
  inferInstanceAs (Decidable (c.isAlphanum = true ∨ c = '_' ∨ c = '.'))

/-- A key that needs no braces starts with an ASCII letter or an underscore. -/
def IsBareKey : List Char → Prop
  | [] => False
  | first :: rest => (first.isAlpha = true ∨ first = '_') ∧ ∀ c ∈ rest, GoesOn c

instance : DecidablePred IsBareKey
  | [] => inferInstanceAs (Decidable False)
  | first :: rest =>
    have := List.decidableBAll GoesOn rest
    inferInstanceAs (Decidable ((first.isAlpha = true ∨ first = '_') ∧ ∀ c ∈ rest, GoesOn c))

namespace Part

/-- A part as it is written in a template. -/
def source : Part → List Char
  | .plain text => text
  | .braced key => '$' :: '\x7b' :: (key ++ ['\x7d'])
  | .bare key => '$' :: key

/-- The part can be written before the rest of a template. -/
def Fits (rest : List Char) : Part → Prop
  | .plain text => '$' ∉ text
  | .braced key => key ≠ [] ∧ '\x7d' ∉ key
  | .bare key => IsBareKey key ∧ ∀ c ∈ rest.head?, ¬ GoesOn c

instance (rest : List Char) : DecidablePred (Fits rest)
  | .plain text => inferInstanceAs (Decidable ('$' ∉ text))
  | .braced key => inferInstanceAs (Decidable (key ≠ [] ∧ '\x7d' ∉ key))
  | .bare key =>
    have : Decidable (∀ c ∈ rest.head?, ¬ GoesOn c) := Option.decidableForallMem rest.head?
    inferInstanceAs (Decidable (IsBareKey key ∧ ∀ c ∈ rest.head?, ¬ GoesOn c))

/-- The values of a key with commas between them, nothing for an unknown key. -/
def joined (m : Metadata) (key : List Char) : String :=
  match m.get? (String.ofList key) with
  | some values => ",".intercalate values
  | none => ""

/-- What stands for the part in the text. -/
def value (m : Metadata) : Part → String
  | .plain text => String.ofList text
  | .braced key => joined m key
  | .bare key => joined m key

end Part

/-- Parts as they are written one after the other. -/
def source (parts : List Part) : List Char := parts.flatMap Part.source

/-- Every part can be written before those after it. -/
def Fit : List Part → Prop
  | [] => True
  | part :: rest => part.Fits (source rest) ∧ Fit rest

instance decidableFit : DecidablePred Fit
  | [] => inferInstanceAs (Decidable True)
  | part :: rest =>
    have := decidableFit rest
    inferInstanceAs (Decidable (part.Fits (source rest) ∧ Fit rest))

/-! ## Scanning a part -/

theorem isKeyChar_iff {c : Char} : isKeyChar c = true ↔ GoesOn c := by
  simp only [isKeyChar, Text.isWord, GoesOn, Bool.or_eq_true, beq_iff_eq, or_assoc]

theorem isWordStart_iff {c : Char} : Text.isWordStart c = true ↔ c.isAlpha = true ∨ c = '_' := by
  simp only [Text.isWordStart, Bool.or_eq_true, beq_iff_eq]

theorem placeholder?_braced {key : List Char} (hkey : key ≠ []) (hclose : '\x7d' ∉ key)
    (rest : List Char) : placeholder? ('\x7b' :: (key ++ '\x7d' :: rest)) = some (key, rest) := by
  have hrun : ∀ c ∈ key, (c != '\x7d') = true := fun c hc =>
    bne_iff_ne.2 fun heq => hclose (heq ▸ hc)
  have hstop : Text.StopsAt (· != '\x7d') ('\x7d' :: rest) := Text.stopsAt_cons (by decide) rest
  rw [placeholder?, Text.takeWhile_run hrun hstop, Text.dropWhile_run hrun hstop]
  simp [hkey]

theorem placeholder?_bare {key rest : List Char} (hkey : IsBareKey key)
    (hrest : ∀ c ∈ rest.head?, ¬ GoesOn c) : placeholder? (key ++ rest) = some (key, rest) := by
  rcases key with _ | ⟨first, tail⟩
  · exact hkey.elim
  rcases hkey with ⟨hfirst, htail⟩
  have hrun : ∀ c ∈ tail, isKeyChar c = true := fun c hc => isKeyChar_iff.2 (htail c hc)
  have hstop : Text.StopsAt isKeyChar rest := fun c hc =>
    Bool.eq_false_iff.2 fun hgoes => hrest c hc (isKeyChar_iff.1 hgoes)
  have hstart := isWordStart_iff.2 hfirst
  have hbrace : first ≠ '\x7b' := by
    rintro rfl
    exact absurd hstart (by decide)
  rw [List.cons_append, placeholder?]
  · rw [if_pos hstart, Text.takeWhile_run hrun hstop, Text.dropWhile_run hrun hstop]
  · exact hbrace

theorem segments_of_ne {c : Char} (hc : c ≠ '$') (s : List Char) :
    segments (c :: s) = .literal c :: segments s := by
  rw [segments, if_neg hc]

theorem segments_of_placeholder? {s key rest : List Char}
    (h : placeholder? s = some (key, rest)) :
    segments ('$' :: s) = .placeholder key :: segments rest := by
  rw [segments, if_pos rfl]
  split
  · rename_i heq
    cases h.symm.trans heq
    rfl
  · rename_i heq
    cases h.symm.trans heq

/-! ## The text of a template -/

variable (m : Metadata)

/-- The text of what is left of a template. -/
def expandFrom (s : List Char) : String := String.join ((segments s).map (Segment.expand m))

theorem expand_ofList (s : List Char) : expand (String.ofList s) m = expandFrom m s := by
  rw [expand, String.toList_ofList, expandFrom]

theorem join_comma (values : List String) : Text.join "," values = ",".intercalate values := by
  induction values with
  | nil => rw [Text.join, String.intercalate_nil]
  | cons v rest ih =>
    cases rest with
    | nil => rw [Text.join, String.intercalate_singleton]
    | cons w rest =>
      rw [Text.join, ih, String.intercalate_cons_cons]
      exact List.cons_ne_nil w rest

theorem expand_placeholder (key : List Char) :
    Segment.expand m (.placeholder key) = Part.joined m key := by
  rw [Segment.expand, join_comma, Metadata.values, Part.joined]
  cases m.get? (String.ofList key) with
  | none => rw [Option.getD_none, String.intercalate_nil]
  | some values => rw [Option.getD_some]

theorem expandFrom_placeholder {s key rest : List Char} (h : placeholder? s = some (key, rest)) :
    expandFrom m ('$' :: s) = Part.joined m key ++ expandFrom m rest := by
  rw [expandFrom, segments_of_placeholder? h, List.map_cons, String.join_cons, expand_placeholder,
    expandFrom]

theorem expandFrom_plain {text : List Char} (h : '$' ∉ text) (rest : List Char) :
    expandFrom m (text ++ rest) = String.ofList text ++ expandFrom m rest := by
  induction text with
  | nil => simp
  | cons c tail ih =>
    have hc : c ≠ '$' := fun heq => h (heq ▸ List.mem_cons_self)
    have htail : expandFrom m (tail ++ rest) = String.ofList tail ++ expandFrom m rest :=
      ih fun hmem => h (List.mem_cons_of_mem c hmem)
    rw [List.cons_append, expandFrom, segments_of_ne hc, List.map_cons, String.join_cons,
      ← expandFrom, htail, Segment.expand, ← String.append_assoc]
    congr 1
    exact String.toList_inj.1 (by simp)

/-- Whatever follows it, a part that fits is replaced by its value. -/
theorem expandFrom_part {part : Part} {rest : List Char} (h : part.Fits rest) :
    expandFrom m (part.source ++ rest) = part.value m ++ expandFrom m rest := by
  cases part with
  | plain text => exact expandFrom_plain m h rest
  | braced key =>
    have hscan := placeholder?_braced h.1 h.2 rest
    rw [Part.source, List.cons_append, List.cons_append, List.append_assoc, List.singleton_append]
    exact expandFrom_placeholder m hscan
  | bare key => exact expandFrom_placeholder m (placeholder?_bare h.1 h.2)

theorem expandFrom_source {parts : List Part} (h : Fit parts) :
    expandFrom m (source parts) = String.join (parts.map (Part.value m)) := by
  induction parts with
  | nil =>
    rw [source, List.flatMap_nil, expandFrom, segments]
    rfl
  | cons part rest ih =>
    rw [source, List.flatMap_cons, ← source, expandFrom_part m h.1, ih h.2, List.map_cons,
      String.join_cons]

/-- The text of a result whose template is put together from parts that fit is that of the parts,
each once and whatever the values. -/
theorem text_of_parts {r : SearchResult} {parts : List Part} (hfit : Fit parts)
    (hformat : r.format = some (String.ofList (source parts))) :
    r.text = String.join (parts.map (Part.value r.metadata)) := by
  rw [SearchResult.text, hformat]
  exact (expand_ofList r.metadata _).trans (expandFrom_source r.metadata hfit)

/-! ## Values that look like placeholders -/

namespace Label

/-- The template `$Name: ${Key.Word}[$Note]` in parts. -/
def parts : List Part :=
  [.bare "Name".toList, .plain ": ".toList, .braced "Key.Word".toList, .plain "[".toList,
    .bare "Note".toList, .plain "]".toList]

/-- One of the keywords is a placeholder itself, and there is no note. -/
def result : SearchResult where
  product := ⟨some "1", "a", .named "T", .flat, .received, [], none⟩
  metadata := .ofPairs [("Name", "a.dat"), ("Key.Word", "$Name"), ("Key.Word", "\x7b$\x7d")]
  format := some (String.ofList (source parts))

theorem fit_parts : Fit parts := by decide

end Label

/-- The keyword that looks like a placeholder stays as it is. -/
theorem label_text :
    Fit Label.parts ∧ Label.result.format = some "$Name: $\x7bKey.Word\x7d[$Note]" ∧
    Label.result.text = "a.dat: $Name,\x7b$\x7d[]" := by
  refine ⟨Label.fit_parts, by decide, ?_⟩
  rw [text_of_parts Label.fit_parts rfl]
  decide +kernel

end ArchiveCatalog.Template
