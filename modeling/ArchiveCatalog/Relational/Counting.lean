import ArchiveCatalog.Page

namespace ArchiveCatalog.Relational

/-! # Counts in statements

Statements count, limit and skip rows in signed words, of which half are below zero. Counts
are turned into signed words before they are put into a statement, and back when they are
read off its answer.
-/

/-- The greatest signed word. -/
def greatestSigned : Nat := (1 <<< 63) - 1

/-- A count as a signed word; a greater one stops at the greatest. -/
def signedCount (n : Nat) : Int := min n greatestSigned

/-- A signed word as a count, 0 if it is below zero. -/
def readCount (n : Int) : Nat := n.toNat

/-- The limit that lets all rows through. -/
def noLimit : Int := -1

variable {α : Type}

/-- The number of rows that a statement counts. -/
def countRows (rows : List α) : Int := signedWord rows.length

/-- The rows that a statement answers: without those that an offset skips, and of the others so
many at most as a limit says. A limit below zero is none, and an offset below zero skips nothing. -/
def limitRows (limit offset : Int) (rows : List α) : List α :=
  let rest := rows.drop offset.toNat
  if limit < 0 then rest else rest.take limit.toNat

end ArchiveCatalog.Relational
