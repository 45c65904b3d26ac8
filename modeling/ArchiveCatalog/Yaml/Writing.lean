import ArchiveCatalog.Text.Decimal
import ArchiveCatalog.Text.Pieces
import ArchiveCatalog.Yaml.Reading

namespace ArchiveCatalog.Yaml

/-! # Writing YAML

Mappings are written in block style, a line for each field and two spaces for each level;
list entries stand at the column of their key. Text is written plainly where it reads back
as that text and nothing else, and otherwise in single quotes, as a block if it has several
lines, or in double quotes if only escapes will do.
-/

/-! ## Text that needs quotes -/

/-- Words that older readers take for truth values. -/
def truthWords : List String :=
  ["y", "Y", "yes", "Yes", "YES", "n", "N", "no", "No", "NO", "true", "True", "TRUE", "false",
    "False", "FALSE", "on", "On", "ON", "off", "Off", "OFF"]

/-- Words for numbers that are not finite. -/
def numberWords : List String :=
  [".inf", ".Inf", ".INF", "+.inf", "+.Inf", "+.INF", "-.inf", "-.Inf", "-.INF", ".nan", ".NaN",
    ".NAN"]

/-- The text spells a finite decimal number with at most one sign. -/
def spellsDecimal (s : List Char) : Bool :=
  let unsigned := if s.head? = some '+' then s.tail else s
  let twoSigns := s.head? = some '+' && (s.tail.head? = some '+' || s.tail.head? = some '-')
  !twoSigns && ((Text.readDecimal? unsigned).map Float.isFinite).getD false

/-- The text without a minus sign spells a natural number. -/
def spellsInteger (s : List Char) : Bool :=
  (natural? s).isSome || (s.head? == some '-' && (magnitude? s.tail).isSome)

/-- The plain text would be read as something else than text. -/
def isAmbiguous (text : String) : Bool :=
  let s := text.toList
  let digits := if s.head? = some '-' ∨ s.head? = some '+' then s.tail else s
  nullSpellings.contains text || truthWords.contains text || numberWords.contains text ||
    spellsInteger s || hasNeedlessZero digits || spellsDecimal s

/-- A character that can be written as it is. -/
def isPrintable (c : Char) : Bool :=
  let n := c.toNat
  n == 10 || (0x20 ≤ n && n ≤ 0x7E) || (0xA0 ≤ n && n ≤ 0xFFFD && n != 0xFEFF)

/-- Characters that mean something at the start of a plain scalar. -/
def startMarks : List Char := "#,[]\x7b\x7d&*!|>\x27\"%@`".toList

/-- A colon before a blank, or a hash after one. -/
def hasInnerMark : List Char → Bool
  | [] => false
  | c :: rest =>
    (c == ':' && endsWord rest) || ((isBlank c || isBreak c) && rest.head? == some '#') ||
      hasInnerMark rest

/-- The text begins in a way that a plain scalar must not. -/
def hasStartMark (s : List Char) : Bool :=
  match s with
  | [] => false
  | c :: rest =>
    startMarks.contains c || ((c == '?' || c == ':' || c == '-') && endsWord rest) ||
      ['-', '-', '-'].isPrefixOf s || ['.', '.', '.'].isPrefixOf s

/-- The text begins or ends with a space. -/
def hasOuterSpace (s : List Char) : Bool := s.head? == some ' ' || s.getLast? == some ' '

/-- There is a space right before a break. -/
def hasSpaceBreak : List Char → Bool
  | ' ' :: c :: rest => isBreak c || hasSpaceBreak (c :: rest)
  | _ :: rest => hasSpaceBreak rest
  | [] => false

/-- Only escapes can write the text. -/
def needsEscapes (s : List Char) : Bool := !s.all isPrintable || hasSpaceBreak s

/-- The text can be written plainly. -/
def isPlainSafe (s : List Char) : Bool :=
  !s.any isBreak && !hasStartMark s && !hasInnerMark s && !hasOuterSpace s

/-! ## Spellings of text -/

/-- The digit of a number below sixteen. -/
def hexDigitOf (n : Nat) : Char := if n < 10 then Char.ofNat (48 + n) else Char.ofNat (55 + n)

/-- The last `width` hexadecimal digits of a number. -/
def hexDigits (n : Nat) : Nat → List Char
  | 0 => []
  | width + 1 => hexDigits (n / 16) width ++ [hexDigitOf (n % 16)]

/-- The letters of escaped characters. -/
def escapeLetters : List (Char × Char) :=
  [('\x00', '0'), ('\x07', 'a'), ('\x08', 'b'), ('\t', 't'), ('\n', 'n'), ('\x0b', 'v'),
    ('\x0c', 'f'), ('\r', 'r'), ('\x1b', 'e'), ('"', '"'), ('\\', '\\'), ('\x85', 'N'),
    ('\u2028', 'L'), ('\u2029', 'P')]

/-- An escaped character after the backslash. -/
def escaped (c : Char) : List Char :=
  match escapeLetters.lookup c with
  | some letter => [letter]
  | none =>
    if c.toNat ≤ 0xFF then 'x' :: hexDigits c.toNat 2
    else if c.toNat ≤ 0xFFFF then 'u' :: hexDigits c.toNat 4
    else 'U' :: hexDigits c.toNat 8

/-- A character between double quotes. -/
def inDoubleQuotes (c : Char) : List Char :=
  if !isPrintable c || isBreak c || c == '"' || c == '\\' then '\\' :: escaped c else [c]

/-- Text in double quotes. -/
def doubleQuoted (s : List Char) : String :=
  "\"" ++ String.ofList (s.flatMap inDoubleQuotes) ++ "\""

/-- Text in single quotes, which are doubled inside. -/
def singleQuoted (s : List Char) : String :=
  "'" ++ String.ofList (s.flatMap fun c => if c = '\x27' then [c, c] else [c]) ++ "'"

/-- Text on one line. -/
def inlineText (text : String) : String :=
  let s := text.toList
  if needsEscapes s || s.any isBreak then doubleQuoted s
  else if isAmbiguous text || !isPlainSafe s then singleQuoted s
  else text

/-- So many spaces. -/
def spaces (n : Nat) : String := String.ofList (List.replicate n ' ')

/-- The header of a block: how it is indented if it starts with a blank, and what becomes
of the break at its end. -/
def blockHeaderText (s : List Char) : String :=
  let start := (s.head?.map fun c => c == ' ' || isBreak c).getD false
  let chomping :=
    match s.reverse with
    | '\n' :: '\n' :: _ => "+"
    | ['\n'] => "+"
    | '\n' :: _ => ""
    | _ => "-"
  "|" ++ (if start then "2" else "") ++ chomping

/-- The lines of a text; one that ends with a break has no line after it. -/
def linesOf (s : List Char) : List (List Char) :=
  match (Text.splitOn '\n' s).reverse with
  | [] :: rest => rest.reverse
  | lines => lines.reverse

/-- A block of lines indented by `indent`. -/
def blockText (indent : Nat) (s : List Char) : String :=
  blockHeaderText s ++ String.join ((linesOf s).map fun line =>
    "\n" ++ (if line.isEmpty then "" else spaces indent) ++ String.ofList line)

/-- Text as the value of a key or entry at a column. -/
def textAt (column : Nat) (text : String) : String :=
  let s := text.toList
  if s.contains '\n' && !needsEscapes s && s.getLast? != some ' ' then blockText (column + 2) s
  else inlineText text

/-! ## Documents -/

/-- What is written under a key. -/
inductive Outline
  | text (s : String)
  | number (n : Nat)
  | list (items : List String)
  | mapping (fields : List (String × Outline))

mutual

/-- A field at a column. -/
def Outline.field (column : Nat) (key : String) : Outline → String
  | .text s => spaces column ++ inlineText key ++ ": " ++ textAt column s ++ "\n"
  | .number n => spaces column ++ inlineText key ++ ": " ++ Nat.repr n ++ "\n"
  | .list items =>
    spaces column ++ inlineText key ++ ":\n" ++ String.join (items.map fun item =>
      spaces column ++ "- " ++ textAt column item ++ "\n")
  | .mapping fields => spaces column ++ inlineText key ++ ":\n" ++ Outline.fields (column + 2) fields

/-- The fields of a mapping at a column. -/
def Outline.fields (column : Nat) : List (String × Outline) → String
  | [] => ""
  | (key, value) :: rest => Outline.field column key value ++ Outline.fields column rest

end

end ArchiveCatalog.Yaml
