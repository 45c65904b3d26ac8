namespace ArchiveCatalog.Json

/-! # Spelling text

Between its quotes text is spelled with escapes. `spell` escapes what must be escaped and
nothing else; `read?` undoes any escape. A spelling with half of a surrogate pair is well
formed but spells no text.
-/

/-! ## Writing -/

/-- The digit of a number below sixteen. -/
def hexDigit (n : Nat) : Char :=
  if n < 10 then Char.ofNat (48 + n) else Char.ofNat (87 + n)

/-- The quote around text. -/
def quote : Char := '"'

/-- The character that starts an escape. -/
def escape : Char := '\\'

/-- How one character is spelled. -/
def spellChar (c : Char) : List Char :=
  if c = quote ∨ c = escape then [escape, c]
  else if c = '\x08' then [escape, 'b']
  else if c = '\x0c' then [escape, 'f']
  else if c = '\n' then [escape, 'n']
  else if c = '\r' then [escape, 'r']
  else if c = '\t' then [escape, 't']
  else if c.toNat < 32 then
    [escape, 'u', '0', '0', hexDigit (c.toNat / 16), hexDigit (c.toNat % 16)]
  else [c]

/-- The spelling of text. -/
def spell (s : String) : List Char := s.toList.flatMap spellChar

/-! ## Reading -/

/-- The value of a hexadecimal digit. -/
def hexValue? (c : Char) : Option Nat :=
  if '0' ≤ c ∧ c ≤ '9' then some (c.toNat - 48)
  else if 'a' ≤ c ∧ c ≤ 'f' then some (c.toNat - 87)
  else if 'A' ≤ c ∧ c ≤ 'F' then some (c.toNat - 55)
  else none

/-- The value of four hexadecimal digits. -/
def unit? (a b c d : Char) : Option Nat := do
  return (((← hexValue? a) * 16 + (← hexValue? b)) * 16 + (← hexValue? c)) * 16 + (← hexValue? d)

/-- The character of an escape of one letter. -/
def simpleEscape? (c : Char) : Option Char :=
  if c = quote ∨ c = escape ∨ c = '/' then some c
  else if c = 'b' then some '\x08'
  else if c = 'f' then some '\x0c'
  else if c = 'n' then some '\n'
  else if c = 'r' then some '\r'
  else if c = 't' then some '\t'
  else none

/-- The unit opens a surrogate pair. -/
def isHighSurrogate (n : Nat) : Bool := 0xD800 ≤ n && n < 0xDC00

/-- The unit closes a surrogate pair. -/
def isLowSurrogate (n : Nat) : Bool := 0xDC00 ≤ n && n < 0xE000

/-- The character of a surrogate pair. -/
def pairChar (high low : Nat) : Char :=
  Char.ofNat (0x10000 + (high - 0xD800) * 0x400 + (low - 0xDC00))

/-- What a spelling is made of. -/
inductive Piece
  | char (c : Char)
  | unit (n : Nat)
  deriving DecidableEq, Repr

/-- The next piece of a text up to its closing quote, its spelling, and what follows.
Control characters must be escaped. -/
def nextPiece? : List Char → Option (Piece × List Char × List Char)
  | [] => none
  | c :: rest =>
    if c = escape then
      match rest with
      | 'u' :: a :: b :: c :: d :: rest =>
        (unit? a b c d).map fun n => (.unit n, [escape, 'u', a, b, c, d], rest)
      | c :: rest => (simpleEscape? c).map fun d => (.char d, [escape, c], rest)
      | [] => none
    else if c = quote ∨ c.toNat < 32 then none
    else some (.char c, [c], rest)

theorem length_nextPiece? {s spelling rest : List Char} {p : Piece}
    (h : nextPiece? s = some (p, spelling, rest)) : rest.length < s.length := by
  unfold nextPiece? at h
  split at h
  · simp at h
  · split at h
    · split at h
      · obtain ⟨n, _, hn⟩ := Option.map_eq_some_iff.1 h
        simp only [Prod.mk.injEq] at hn
        simp only [← hn.2.2, List.length_cons]
        omega
      · obtain ⟨d, _, hd⟩ := Option.map_eq_some_iff.1 h
        simp only [Prod.mk.injEq] at hd
        simp only [← hd.2.2, List.length_cons]
        omega
      · simp at h
    · split at h
      · simp at h
      · simp only [Option.some.injEq, Prod.mk.injEq] at h
        simp [← h.2.2]

/-- The pieces of a spelling, all of it. -/
def pieces? (s : List Char) : Option (List Piece) :=
  if s = [] then some []
  else
    match _h : nextPiece? s with
    | some (p, _, rest) => (pieces? rest).map (p :: ·)
    | none => none
termination_by s.length
decreasing_by exact length_nextPiece? _h

/-- The text of pieces; surrogates must come in pairs. -/
def ofPieces? : List Piece → Option (List Char)
  | [] => some []
  | .char c :: rest => (ofPieces? rest).map (c :: ·)
  | .unit n :: rest =>
    if isLowSurrogate n then none
    else if isHighSurrogate n then
      match rest with
      | .unit low :: rest =>
        if isLowSurrogate low then (ofPieces? rest).map (pairChar n low :: ·) else none
      | _ => none
    else (ofPieces? rest).map (Char.ofNat n :: ·)

/-- The text of a spelling. -/
def read? (spelling : List Char) : Option String :=
  ((pieces? spelling).bind ofPieces?).map String.ofList

end ArchiveCatalog.Json
