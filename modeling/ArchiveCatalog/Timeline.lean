import ArchiveCatalog.Query

namespace ArchiveCatalog

/-! # Time events

Events occupy an interval of time and have a priority. Two filters thin out events that
overlap: one keeps the chain of events that covers the most time, the other drops what an
event of higher priority overlaps. Priorities are any ordered type with addition.
-/

/-- An item that occupies the milliseconds from `start` to `stop`. -/
structure TimeEvent (π α : Type) where
  start : Int
  stop : Int
  priority : π
  item : α
  deriving DecidableEq, Repr

namespace TimeEvent

variable {π α : Type}

/-- The time an event covers. -/
def duration (e : TimeEvent π α) : Int := e.stop - e.start

/-- The first event starts first and is over when the second starts, give or take
`epsilon`. -/
def happensBefore (epsilon : Int) (a b : TimeEvent π α) : Bool :=
  a.start < b.start && b.start - a.stop + epsilon > 0

/-- The order of events in time: by start, then by end. -/
def inOrder (a b : TimeEvent π α) : Bool :=
  a.start < b.start || (a.start == b.start && a.stop ≤ b.stop)

/-- The events in order of time; events of equal start and end keep their order. -/
def sorted (events : List (TimeEvent π α)) : List (TimeEvent π α) := events.mergeSort inOrder

end TimeEvent

/-! ## Chains -/

/-- A chain of events, each happening before the next, told from its last event. -/
structure EventChain (π α : Type) where
  last : TimeEvent π α
  earlier : List (TimeEvent π α)
  weight : Int
  priority : π

namespace EventChain

variable {π α : Type} [Add π] [LT π] [DecidableLT π]

/-- The chain of one event. -/
def single (e : TimeEvent π α) : EventChain π α := ⟨e, [], e.duration, e.priority⟩

/-- The chain with one more event. -/
def extend (c : EventChain π α) (e : TimeEvent π α) : EventChain π α :=
  ⟨e, c.last :: c.earlier, c.weight + e.duration, c.priority + e.priority⟩

/-- The first chain covers more time, or as much with a larger sum of priorities. -/
def better (a b : EventChain π α) : Bool :=
  b.weight < a.weight || (a.weight == b.weight && decide (b.priority < a.priority))

/-- The better of two chains, the first of equally good ones. -/
def best (a b : EventChain π α) : EventChain π α := if b.better a then b else a

/-- The events of a chain in order. -/
def events (c : EventChain π α) : List (TimeEvent π α) := (c.last :: c.earlier).reverse

/-- The best chain that ends with an event, given the best chains that end with the events
before it. -/
def bestEnding (epsilon : Int) (chains : List (EventChain π α)) (e : TimeEvent π α) :
    EventChain π α :=
  chains.foldl (fun found c =>
    if c.last.happensBefore epsilon e then best found (c.extend e) else found) (single e)

/-- For every event in order, the best chain that ends with it. -/
def bestChains (epsilon : Int) (events : List (TimeEvent π α)) : List (EventChain π α) :=
  events.foldl (fun chains e => chains ++ [bestEnding epsilon chains e]) []

end EventChain

namespace TimeEvent

variable {π α : Type} [Add π] [LT π] [DecidableLT π]

/-- The chain of events that covers the most time, with the largest sum of priorities
among those. -/
def heaviestChain (epsilon : Int) (events : List (TimeEvent π α)) : List (TimeEvent π α) :=
  match EventChain.bestChains epsilon (sorted events) with
  | [] => []
  | c :: cs => (cs.foldl EventChain.best c).events

/-- Neither event happens before the other, and the second has the higher priority. -/
def overruledBy (epsilon : Int) (e other : TimeEvent π α) : Bool :=
  decide (e.priority < other.priority) && !happensBefore epsilon e other &&
    !happensBefore epsilon other e

/-- The events that no event of higher priority overlaps, in order of time. -/
def highestPriority (epsilon : Int) (events : List (TimeEvent π α)) : List (TimeEvent π α) :=
  (sorted events).filter fun e => !(sorted events).any (overruledBy epsilon e)

/-- Thins out events by an algorithm. -/
def filtered (algorithm : FilterAlgorithm) (epsilon : Int) (events : List (TimeEvent π α)) :
    List (TimeEvent π α) :=
  match algorithm with
  | .weightedHash => heaviestChain epsilon events
  | .takeHighestPriority => highestPriority epsilon events

end TimeEvent

end ArchiveCatalog
