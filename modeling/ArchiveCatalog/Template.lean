import ArchiveCatalog.Metadata
import ArchiveCatalog.Text.Ascii
import ArchiveCatalog.Text.Pieces

namespace ArchiveCatalog.Template

/-! # Output templates

A template stands for a text with the values of metadata in place of its placeholders,
`$key` or a key in braces after the dollar. One pass from left to right finds them; what
is put in is not looked at again.
-/

/-- A part of a template. -/
inductive Segment
  | literal (c : Char)
  | placeholder (key : List Char)
  deriving DecidableEq, Repr

/-- A character that a bare key may go on with. -/
def isKeyChar (c : Char) : Bool := Text.isWord c || c == '.'

/-- The placeholder after a dollar and the rest of the template: a nonempty key without
`}` in braces, or as many key characters as there are after a letter or underscore. -/
def placeholder? : List Char → Option (List Char × List Char)
  | '\x7b' :: s =>
    let key := s.takeWhile (· != '\x7d')
    match s.dropWhile (· != '\x7d') with
    | _ :: rest => if key.isEmpty then none else some (key, rest)
    | [] => none
  | c :: s => if Text.isWordStart c then some (c :: s.takeWhile isKeyChar, s.dropWhile isKeyChar) else none
  | [] => none

theorem length_placeholder? {s key rest : List Char} (h : placeholder? s = some (key, rest)) :
    rest.length < s.length + 1 := by
  unfold placeholder? at h
  split at h
  · rename_i t
    dsimp only at h
    split at h
    · rename_i heq
      split at h
      · simp at h
      · simp only [Option.some.injEq, Prod.mk.injEq] at h
        have := (List.dropWhile_sublist (l := t) (· != '\x7d')).length_le
        rw [heq] at this
        simp only [List.length_cons, ← h.2] at this ⊢
        omega
    · simp at h
  · rename_i c t _
    split at h
    · simp only [Option.some.injEq, Prod.mk.injEq] at h
      have := (List.dropWhile_sublist (l := t) isKeyChar).length_le
      simp only [List.length_cons, ← h.2]
      omega
    · simp at h
  · simp at h

/-- The parts of a template from left to right. -/
def segments : List Char → List Segment
  | [] => []
  | c :: s =>
    if c = '$' then
      match _h : placeholder? s with
      | some (key, rest) => .placeholder key :: segments rest
      | none => .literal c :: segments s
    else .literal c :: segments s
termination_by s => s.length
decreasing_by
  · exact length_placeholder? _h
  · simp
  · simp

/-- The text of a part: the values of a key with commas between them, nothing for a key
that is not there. -/
def Segment.expand (m : Metadata) : Segment → String
  | .literal c => String.singleton c
  | .placeholder key => Text.join "," (m.values (String.ofList key))

/-- The text of a template. -/
def expand (template : String) (m : Metadata) : String :=
  String.join ((segments template.toList).map (Segment.expand m))

end ArchiveCatalog.Template
