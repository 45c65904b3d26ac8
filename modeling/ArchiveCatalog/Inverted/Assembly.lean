import ArchiveCatalog.Product

namespace ArchiveCatalog.Inverted

/-! # Assembly

A product is searchable only when it is complete: it has metadata, perhaps without any
element, and its references are materialized. Until then its state waits in a slot of the
assembly cache. Whoever works on a product takes a handle of its slot; the handles of one
slot all read and write the same state. A slot is dropped when it is released, but only if
it is empty and nobody has a handle of it. Every slot has a number of its own, so a slot
that is made anew after a drop can be told from the one before.
-/

/-- A product on the way to completion. -/
structure Pending where
  product : Product
  metadata : Option Metadata
  /-- A document of the product is in the index. -/
  indexed : Bool
  deriving DecidableEq, Repr

namespace Pending

/-- A product as it is registered. -/
def ofProduct (p : Product) : Pending := ⟨p, none, false⟩

/-- Nothing is missing. -/
def isComplete (p : Pending) : Bool := p.metadata.isSome && p.product.referencesMaterialized

end Pending

/-- The place of one product. -/
structure Slot where
  /-- No other slot, of now or before, has this number. -/
  number : Nat
  pending : Option Pending
  /-- How many handles of the slot are out. -/
  holders : Nat
  deriving DecidableEq, Repr

/-- What its holder reaches a slot by. -/
structure Handle where
  id : String
  number : Nat
  deriving DecidableEq, Repr

/-- The slots by product id. -/
structure AssemblyCache where
  slots : List (String × Slot)
  /-- How many slots were ever made; the next one gets this number. -/
  made : Nat
  deriving DecidableEq, Repr

namespace AssemblyCache

/-- No slots. -/
def empty : AssemblyCache := ⟨[], 0⟩

instance : Inhabited AssemblyCache := ⟨empty⟩

/-- The slot of a product. -/
def slot? (c : AssemblyCache) (id : String) : Option Slot := c.slots.lookup id

/-- What waits in the slot of a product. -/
def pending? (c : AssemblyCache) (id : String) : Option Pending := (c.slot? id).bind Slot.pending

/-- Something waits in the slot of a product. -/
def contains (c : AssemblyCache) (id : String) : Bool := (c.pending? id).isSome

/-- The number of slots. -/
def size (c : AssemblyCache) : Nat := c.slots.length

/-- There is no slot. -/
def isEmpty (c : AssemblyCache) : Bool := c.slots.isEmpty

/-- The slot of a product, or the empty one that it gets. -/
def slotOrNew (c : AssemblyCache) (id : String) : Slot := (c.slot? id).getD ⟨c.made, none, 0⟩

/-- Makes an empty slot for a product that has none. -/
def reserve (c : AssemblyCache) (id : String) : AssemblyCache :=
  match c.slot? id with
  | some _ => c
  | none => ⟨(id, c.slotOrNew id) :: c.slots, c.made + 1⟩

/-- Changes the slot of a product, if it has one. -/
def change (c : AssemblyCache) (id : String) (f : Slot → Slot) : AssemblyCache :=
  { c with slots := c.slots.map fun entry =>
      if entry.1 = id then (entry.1, f entry.2) else entry }

/-- Replaces what waits in the slot of a product, which is made if need be. -/
def store (c : AssemblyCache) (id : String) (pending : Option Pending) : AssemblyCache :=
  (c.reserve id).change id fun s => { s with pending }

/-- Drops the slot of a product if it is empty and nobody has a handle of it. -/
def release (c : AssemblyCache) (id : String) : AssemblyCache :=
  match c.slot? id with
  | some ⟨_, none, 0⟩ => { c with slots := c.slots.filter (·.1 != id) }
  | _ => c

/-! ## Handles -/

/-- A handle of the slot of a product, or of the one that is made next. -/
def handleOf (c : AssemblyCache) (id : String) : Handle := ⟨id, (c.slotOrNew id).number⟩

/-- Takes a handle of the slot of a product, which is made if need be. -/
def hold (c : AssemblyCache) (id : String) : Handle × AssemblyCache :=
  (c.handleOf id, (c.reserve id).change id fun s => { s with holders := s.holders + 1 })

/-- Changes the slot of a handle; a slot with another number stays as it is. -/
def changeBy (c : AssemblyCache) (h : Handle) (f : Slot → Slot) : AssemblyCache :=
  c.change h.id fun s => if s.number = h.number then f s else s

/-- Gives a handle back. -/
def letGo (c : AssemblyCache) (h : Handle) : AssemblyCache :=
  c.changeBy h fun s => { s with holders := s.holders - 1 }

/-- What waits in the slot of a handle. -/
def read? (c : AssemblyCache) (h : Handle) : Option Pending :=
  ((c.slot? h.id).filter fun s => s.number == h.number).bind Slot.pending

/-- Replaces what waits in the slot of a handle. -/
def write (c : AssemblyCache) (h : Handle) (pending : Option Pending) : AssemblyCache :=
  c.changeBy h fun s => { s with pending }

end AssemblyCache

end ArchiveCatalog.Inverted
