namespace ArchiveCatalog.Text

/-! # Numerals

Integers are ASCII digits with an optional sign, nothing else; leading zeros are
allowed. `readInt64?` also asks that the value fit 64 bits.
-/

/-- The value of a run of digits after the digits read so far. -/
def digitsValue (acc : Nat) : List Char → Option Nat
  | [] => some acc
  | c :: rest => if c.isDigit then digitsValue (acc * 10 + (c.toNat - 48)) rest else none

/-- An unsigned numeral with at least one digit. -/
def readNat? : List Char → Option Nat
  | [] => none
  | s => digitsValue 0 s

/-- A numeral with an optional sign. -/
def readInt? : List Char → Option Int
  | '-' :: rest => (readNat? rest).map fun n => -(n : Int)
  | '+' :: rest => (readNat? rest).map fun n => (n : Int)
  | s => (readNat? s).map fun n => (n : Int)

/-- The least and the greatest signed 64-bit value bound `n`. -/
def fitsInt64 (n : Int) : Bool := -9223372036854775808 ≤ n && n ≤ 9223372036854775807

/-- A numeral whose value is a signed 64-bit number. -/
def readInt64? (s : List Char) : Option Int := (readInt? s).filter fitsInt64

end ArchiveCatalog.Text
