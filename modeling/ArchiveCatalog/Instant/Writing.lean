import ArchiveCatalog.Instant

namespace ArchiveCatalog.Instant

/-! # Writing timestamps

An instant is written in UTC as RFC 3339 has it, with no, three, six or nine places of a
second, the fewest that lose nothing. Years outside four digits carry a sign.
-/

/-- A number padded with zeros on the left. -/
def padded (width n : Nat) : String :=
  let text := Nat.repr n
  String.ofList (List.replicate (width - text.length) '0') ++ text

/-- The year as four digits, or with a sign. -/
def yearText (year : Int) : String :=
  if 0 ≤ year ∧ year ≤ 9999 then padded 4 year.toNat
  else (if year < 0 then "-" else "+") ++ padded 4 year.natAbs

/-- The places of a second, the fewest of 0, 3, 6 and 9. -/
def fractionText (nanos : Nat) : String :=
  if nanos = 0 then ""
  else if nanos % 1000000 = 0 then "." ++ padded 3 (nanos / 1000000)
  else if nanos % 1000 = 0 then "." ++ padded 6 (nanos / 1000)
  else "." ++ padded 9 nanos

/-- The timestamp of an instant. -/
def stamp (t : Instant) : String :=
  let date := CalendarDate.ofDays (t.seconds / secondsPerDay)
  let clock := (t.seconds % secondsPerDay).toNat
  let leap := 1000000000 ≤ t.nanos
  let second := clock % 60 + if leap then 1 else 0
  let nanos := if leap then t.nanos - 1000000000 else t.nanos
  yearText date.year ++ "-" ++ padded 2 date.month ++ "-" ++ padded 2 date.day ++ "T" ++
    padded 2 (clock / 3600) ++ ":" ++ padded 2 (clock / 60 % 60) ++ ":" ++ padded 2 second ++
    fractionText nanos ++ "Z"

end ArchiveCatalog.Instant
