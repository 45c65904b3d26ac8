import ArchiveCatalog.Error
import ArchiveCatalog.Instant
import ArchiveCatalog.Text.Blank
import ArchiveCatalog.Text.Numeral

namespace ArchiveCatalog.Instant

/-! # Reading timestamps

Three spellings of a timestamp are read: the strict one of RFC 3339 with fixed-width
fields and an offset; a local one without offset, taken as UTC, whose fields may be
shorter and follow blanks; and a relaxed one with blanks allowed around every field.
A time is one of the first two or a plain count of milliseconds.
-/

/-- The fields of a timestamp as written. -/
structure Fields where
  year : Int
  month : Nat
  day : Nat
  hour : Nat
  minute : Nat
  second : Nat
  nanos : Nat
  deriving Repr

/-- The instant of local fields at an offset in seconds. Second 60 is a leap second. -/
def Fields.toInstant? (f : Fields) (offset : Int) : Option Instant :=
  let date : CalendarDate := ⟨f.year, f.month, f.day⟩
  if date.isValid ∧ f.hour ≤ 23 ∧ f.minute ≤ 59 ∧ f.second ≤ 60 then
    let second := min f.second 59
    let nanos := f.nanos + if f.second = 60 then 1000000000 else 0
    let t : Instant :=
      ⟨date.toDays * secondsPerDay + (f.hour * 3600 + f.minute * 60 + second : Nat) - offset, nanos⟩
    if t.inRange then some t else none
  else none

/-! ## Parts -/

/-- Between `least` and `most` digits, as many as there are. -/
def digits (least most : Nat) (s : List Char) : Option (Nat × List Char) :=
  let run := (s.take most).takeWhile Char.isDigit
  if run.length < least then none
  else (Text.readNat? run).map fun n => (n, s.drop run.length)

/-- The given character. -/
def mark (c : Char) : List Char → Option (List Char)
  | [] => none
  | d :: rest => if d = c then some rest else none

/-- Nothing, or a point and digits: the nanoseconds of a second, further digits dropped. -/
def fraction : List Char → Option (Nat × List Char)
  | '.' :: rest => do
    let run := rest.takeWhile Char.isDigit
    let kept := run.take 9
    let n ← Text.readNat? kept
    return (n * Nat.pow 10 (9 - kept.length), rest.drop run.length)
  | s => some (0, s)

/-- Blanks, then a number of at most `width` digits. -/
def looseNumber (width : Nat) (s : List Char) : Option (Nat × List Char) :=
  digits 1 width (Text.trimStart s)

/-- Blanks, then a year: up to four digits, or a sign and any number of them. -/
def looseYear (s : List Char) : Option (Int × List Char) :=
  match Text.trimStart s with
  | '-' :: rest => (digits 1 rest.length rest).map fun (n, rest) => (-(n : Int), rest)
  | '+' :: rest => (digits 1 rest.length rest).map fun (n, rest) => ((n : Int), rest)
  | s => (digits 1 4 s).map fun (n, rest) => ((n : Int), rest)

/-- The greatest offset, in seconds. -/
def greatestOffset : Int := (23 * 60 + 59) * 60

/-- `Z`, or a sign, two digits for hours, what `separator` takes, and two digits for
minutes. The minus sign may be U+2212. -/
def offset (separator : List Char → Option (List Char)) :
    List Char → Option (Int × List Char)
  | [] => none
  | c :: s =>
    if c = 'Z' ∨ c = 'z' then some (0, s)
    else if c = '+' ∨ c = '-' ∨ c = '\u2212' then do
      let (hours, s) ← digits 2 2 s
      let s ← separator s
      let (minutes, s) ← digits 2 2 s
      if minutes ≥ 60 then none
      else
        let seconds : Int := (hours * 3600 + minutes * 60 : Nat)
        let signed := if c = '+' then seconds else -seconds
        if seconds ≤ greatestOffset then some (signed, s) else none
    else none

/-- `T` in either case, or a blank. -/
def dateTimeMark : List Char → Option (List Char)
  | c :: rest => if c = 'T' ∨ c = 't' ∨ c = ' ' then some rest else none
  | [] => none

/-! ## Spellings -/

/-- A timestamp of RFC 3339, all of the text. -/
def ofStrict? (s : List Char) : Option Instant := do
  let (year, s) ← digits 4 4 s
  let s ← mark '-' s
  let (month, s) ← digits 2 2 s
  let s ← mark '-' s
  let (day, s) ← digits 2 2 s
  let s ← dateTimeMark s
  let (hour, s) ← digits 2 2 s
  let s ← mark ':' s
  let (minute, s) ← digits 2 2 s
  let s ← mark ':' s
  let (second, s) ← digits 2 2 s
  let (nanos, s) ← fraction s
  let (shift, s) ← offset (mark ':') s
  guard s.isEmpty
  Fields.toInstant? ⟨year, month, day, hour, minute, second, nanos⟩ shift

/-- A local timestamp; `between` takes what stands between date and time. -/
def ofLocal? (between : List Char → Option (List Char)) (s : List Char) : Option Instant := do
  let (year, s) ← looseYear s
  let s ← mark '-' s
  let (month, s) ← looseNumber 2 s
  let s ← mark '-' s
  let (day, s) ← looseNumber 2 s
  let s ← between s
  let (hour, s) ← looseNumber 2 s
  let s ← mark ':' s
  let (minute, s) ← looseNumber 2 s
  let s ← mark ':' s
  let (second, s) ← looseNumber 2 s
  let (nanos, s) ← fraction s
  guard s.isEmpty
  Fields.toInstant? ⟨year, month, day, hour, minute, second, nanos⟩ 0

/-- A timestamp with blanks allowed around its fields and `UTC` for the offset. -/
def ofRelaxed? (s : List Char) : Option Instant := do
  let skip := Text.trimStart
  let (year, s) ← looseYear s
  let s ← mark '-' (skip s)
  let (month, s) ← looseNumber 2 s
  let s ← mark '-' (skip s)
  let (day, s) ← looseNumber 2 s
  let s ← dateTimeMark s
  let (hour, s) ← looseNumber 2 s
  let s ← mark ':' (skip s)
  let (minute, s) ← looseNumber 2 s
  let s ← mark ':' (skip s)
  let (second, s) ← looseNumber 2 s
  let (nanos, s) ← fraction s
  let s := skip s
  let (shift, s) ←
    if (s.take 3).map Char.toUpper = ['U', 'T', 'C'] then some (0, s.drop 3)
    else offset (fun s => some (s.dropWhile fun c => c == ':' || Text.isBlank c)) s
  guard (skip s).isEmpty
  Fields.toInstant? ⟨year, month, day, hour, minute, second, nanos⟩ shift

/-- The milliseconds of a time: a timestamp, or the count itself. Blanks around it do not
count. -/
def readMillis (value : String) : Except QueryFault Int :=
  let s := Text.trim value.toList
  let stamp := ofStrict? s <|> ofLocal? (mark 'T') s <|> ofLocal? (fun s => some (Text.trimStart s)) s
  match stamp with
  | some t => .ok t.toMillis
  | none =>
    match Text.readInt64? s with
    | some n => .ok n
    | none => .error (.unreadableTime (String.ofList s))

end ArchiveCatalog.Instant
