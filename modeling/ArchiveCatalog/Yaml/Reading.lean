import ArchiveCatalog.Text.Numeral
import ArchiveCatalog.Yaml.Node

namespace ArchiveCatalog.Yaml

/-! # Reading YAML nodes

Readers take what a node stands for or refuse it. Any scalar is text, whatever it looks
like; numbers are plain. What is left out stands for no value, an empty list, or a record
without fields.
-/

/-- A reader of nodes that may refuse. -/
abbrev Reader (α : Type) := Node → Option α

/-- The node is left out: an empty plain scalar. -/
def isAbsent : Node → Bool
  | .scalar s => s.plain && s.text.isEmpty
  | _ => false

/-- Text. -/
def asText : Reader String
  | .scalar s => some (String.ofList s.text)
  | _ => none

/-! ## Numbers -/

/-- The value of a digit below the base. -/
def digitBelow? (base : Nat) (c : Char) : Option Nat := (hexDigit? c).filter (· < base)

/-- A number in a base: one digit at least. -/
def inBase? (base : Nat) (digits : List Char) : Option Nat :=
  if digits.isEmpty then none
  else digits.foldlM (fun n d => (digitBelow? base d).map (n * base + ·)) 0

/-- Digits with a needless zero in front: text, not a number. -/
def hasNeedlessZero (s : List Char) : Bool :=
  1 < s.length && s.head? == some '0' && s.all Char.isDigit

/-- The bases that a number may name in front. -/
def namedBases : List (List Char × Nat) := [(['0', 'x'], 16), (['0', 'o'], 8), (['0', 'b'], 2)]

/-- A natural number without sign: decimal, or in a named base. -/
def magnitude? (s : List Char) : Option Nat :=
  match namedBases.lookup (s.take 2) with
  | some base => inBase? base (s.drop 2)
  | none => if hasNeedlessZero s then none else inBase? 10 s

/-- A natural number, perhaps with a plus sign. -/
def natural? : List Char → Option Nat
  | '+' :: rest => magnitude? rest
  | s => magnitude? s

/-- A natural number that is not greater than a limit. -/
def asNatural (greatest : Nat) : Reader Nat
  | .scalar s => if s.plain then (natural? s.text).filter (· ≤ greatest) else none
  | _ => none

/-! ## Compound values -/

/-- The spellings of no value. -/
def nullSpellings : List String := ["", "~", "null", "Null", "NULL"]

/-- No value, or a value. -/
def optionally {α : Type} (reader : Reader α) : Reader (Option α) := fun n =>
  match n with
  | .scalar s =>
    if s.plain ∧ String.ofList s.text ∈ nullSpellings then some none else (reader n).map some
  | n => (reader n).map some

/-- A list. -/
def asList {α : Type} (reader : Reader α) : Reader (List α)
  | .list items => items.mapM reader
  | n => if isAbsent n then some [] else none

/-- A mapping from text. -/
def asMapping {α : Type} (reader : Reader α) : Reader (List (String × α))
  | .mapping fields => fields.mapM fun (key, value) => return (← asText key, ← reader value)
  | n => if isAbsent n then some [] else none

/-! ## Records -/

/-- Known fields by name. -/
abbrev Fields := List (String × Node)

/-- The known fields of a mapping, none twice. Fields that are not known are skipped if
the record is open. -/
def knownFields (known : List String) (isOpen : Bool) : List (Node × Node) → Option Fields
  | [] => some []
  | (key, value) :: rest => do
    let name ← asText key
    let fields ← knownFields known isOpen rest
    if name ∈ known then
      if (fields.lookup name).isSome then none else return (name, value) :: fields
    else if isOpen then return fields
    else none

/-- The fields of a record. -/
def asFields (known : List String) (isOpen : Bool) : Reader Fields
  | .mapping fields => knownFields known isOpen fields
  | n => if isAbsent n then some [] else none

/-- A field that must be there. -/
def required {α : Type} (fields : Fields) (name : String) (reader : Reader α) : Option α :=
  (fields.lookup name).bind reader

/-- A field that has a value of its own when it is not there. -/
def defaulted {α : Type} (fields : Fields) (name : String) (absent : α) (reader : Reader α) :
    Option α :=
  match fields.lookup name with
  | some n => reader n
  | none => some absent

end ArchiveCatalog.Yaml
