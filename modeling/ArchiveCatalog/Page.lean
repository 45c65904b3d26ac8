import ArchiveCatalog.Product

namespace ArchiveCatalog

/-! # Pages

A result is cut into pages of a fixed size. Counts are machine words, so the product and
the sum that locate a page stop at the greatest word instead of growing past it.
-/

/-- The greatest count. -/
def greatestCount : Nat := (1 <<< 64) - 1

/-- Product of counts, stopping at the greatest. -/
def boundedMul (a b : Nat) : Nat := min (a * b) greatestCount

/-- Sum of counts, stopping at the greatest. -/
def boundedAdd (a b : Nat) : Nat := min (a + b) greatestCount

/-- The signed word with the bits of a count. -/
def signedWord (n : Nat) : Int := Int.bmod n (1 <<< 64)

/-- The page number that asks for the complete result. -/
def allResults : Int := -1

/-- One page of a result. The first page is 1; only the blank page is 0. -/
structure Page where
  number : Nat
  totalPages : Nat
  size : Nat
  hits : Nat
  products : List Product
  deriving DecidableEq, Repr, Inhabited

namespace Page

/-- The page of a result without hits. -/
def blank (size : Nat) : Page := ⟨0, 0, size, 0, []⟩

/-- The result has no pages. -/
def isBlank (p : Page) : Bool := p.totalPages == 0

/-- No page follows. -/
def isLast (p : Page) : Bool := p.totalPages ≤ p.number

/-- No page precedes. -/
def isFirst (p : Page) : Bool := p.number ≤ 1

/-- The number of pages that hold so many hits. -/
def totalFor (hits size : Nat) : Nat := if size = 0 then 0 else (hits + size - 1) / size

end Page

/-- The part of a result that a request for a page selects. -/
inductive PageWindow
  | blank
  | all
  | slice (number offset : Nat)
  deriving DecidableEq, Repr

namespace PageWindow

/-- The window of a page. A page past the end stands for the first one. -/
def resolve (number : Int) (size hits : Nat) : Except QueryFault PageWindow :=
  if size = 0 then .error .emptyPage
  else if number ≠ allResults ∧ number < 1 then .error (.invalidPage number)
  else if hits = 0 then .ok .blank
  else if number = allResults then .ok .all
  else
    let offset := boundedMul (number.toNat - 1) size
    if hits ≤ offset then .ok (.slice 1 0) else .ok (.slice number.toNat offset)

/-- The page of a window, given its products. -/
def page (w : PageWindow) (size hits : Nat) (products : List Product) : Page :=
  match w with
  | .blank => Page.blank size
  | .all => ⟨1, 1, hits, hits, products⟩
  | .slice number _ => ⟨number, Page.totalFor hits size, size, hits, products⟩

/-- Where a window starts and ends in the complete result. -/
def bounds (w : PageWindow) (size hits : Nat) : Nat × Nat :=
  match w with
  | .blank => (0, 0)
  | .all => (0, hits)
  | .slice _ offset => (offset, min (boundedAdd offset size) hits)

/-- The members of a result that lie in a window. -/
def cut {α : Type} (w : PageWindow) (size : Nat) (result : List α) : List α :=
  let (start, stop) := w.bounds size result.length
  (result.take stop).drop start

end PageWindow

end ArchiveCatalog
