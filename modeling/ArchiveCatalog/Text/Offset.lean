namespace ArchiveCatalog.Text

/-! # Offsets

An offset counts the bytes of a text in UTF-8 before a place in it. A text can be cut only where a
character begins and at its end; elsewhere a cut is out of range.
-/

/-- The number of bytes of a text in UTF-8. -/
def byteCount : List Char → Nat
  | [] => 0
  | c :: s => c.utf8Size + byteCount s

/-- What stands before and after an offset. -/
def cutAtOffset : List Char → Nat → Option (List Char × List Char)
  | [], offset => if offset = 0 then some ([], []) else none
  | c :: s, offset =>
    if offset = 0 then some ([], c :: s)
    else if c.utf8Size ≤ offset then
      (cutAtOffset s (offset - c.utf8Size)).map fun (before, after) => (c :: before, after)
    else none

/-- A character begins at the offset, or the text ends there. -/
def isBoundary (s : List Char) (offset : Nat) : Bool := (cutAtOffset s offset).isSome

/-- The text from an offset on. -/
def sliceFrom? (start : Nat) (s : List Char) : Option (List Char) :=
  (cutAtOffset s start).map Prod.snd

/-- The text from an offset up to another, which must not be smaller. -/
def slice? (start stop : Nat) (s : List Char) : Option (List Char) :=
  (cutAtOffset s stop).bind fun (before, _) => sliceFrom? start before

/-- The characters of a text with the offsets at which they begin, if it starts at one. -/
def withOffsets (start : Nat) : List Char → List (Nat × Char)
  | [] => []
  | c :: s => (start, c) :: withOffsets (start + c.utf8Size) s

end ArchiveCatalog.Text
