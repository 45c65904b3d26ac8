import ArchiveCatalog.Text.Ascii
import ArchiveCatalog.Text.Numeral

namespace ArchiveCatalog.Text

/-! # Decimal numbers

Reads the usual spelling of a binary double: an optional sign, digits with an optional
point (one digit at least, on either side), an optional exponent; or `inf`, `infinity`,
`nan` in any case.
-/

/-- `mantissa · 10 ^ exponent`, rounded to the nearest double. Exponents far outside the
range of a double are settled without computing the power. -/
def decimalValue (mantissa : Nat) (exponent : Int) : Float :=
  let magnitude : Int := (Nat.repr mantissa).length + exponent
  if mantissa = 0 then 0
  else if magnitude > 320 then 1.0 / 0.0
  else if magnitude < -340 then 0
  else Float.ofScientific mantissa (exponent < 0) exponent.natAbs

/-- The exponent part: nothing, or `e` and an integer. -/
def readExponent? : List Char → Option Int
  | [] => some 0
  | c :: rest => if c = 'e' ∨ c = 'E' then readInt? rest else none

/-- An unsigned decimal number. -/
def readUnsignedDecimal? (s : List Char) : Option Float :=
  let whole := s.takeWhile Char.isDigit
  let rest := s.dropWhile Char.isDigit
  let (fraction, rest) := match rest with
    | '.' :: more => (more.takeWhile Char.isDigit, more.dropWhile Char.isDigit)
    | _ => ([], rest)
  match readNat? (whole ++ fraction), readExponent? rest with
  | some mantissa, some exponent => some (decimalValue mantissa (exponent - fraction.length))
  | _, _ => none

/-- An unsigned decimal number or one of the special values. -/
def readMagnitude? (s : List Char) : Option Float :=
  let word := s.map Char.toLower
  if word = "inf".toList ∨ word = "infinity".toList then some (1.0 / 0.0)
  else if word = "nan".toList then some (0.0 / 0.0)
  else readUnsignedDecimal? s

/-- A decimal number with an optional sign. -/
def readDecimal? : List Char → Option Float
  | '-' :: rest => (readMagnitude? rest).map fun x => -x
  | '+' :: rest => readMagnitude? rest
  | s => readMagnitude? s

end ArchiveCatalog.Text
