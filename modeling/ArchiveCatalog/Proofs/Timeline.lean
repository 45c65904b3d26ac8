import Mathlib.Algebra.Order.Group.Int
import Mathlib.Algebra.Order.Monoid.Prod
import Mathlib.Algebra.Order.Ring.Rat
import Mathlib.Data.List.Chain
import Mathlib.Data.List.Perm.Subperm
import Mathlib.Data.Prod.Lex
import Mathlib.Data.Set.Finite.Lemmas
import Mathlib.Data.Set.Finite.List
import ArchiveCatalog.Timeline

namespace ArchiveCatalog

/-! # What the filters keep

Priorities are exact here: sums of them do not depend on the order of addition, and adding the
same to both sides of a comparison does not change it. Then the chain that is kept is the best of
all chains of the events, first by the time it covers and then by its priorities. Of events that
overlap, the other filter keeps those of highest priority, in whatever order they come, and a
second pass finds nothing more to drop.
-/

namespace TimeEvent

variable {π α : Type} {epsilon : Int}

/-! ## Order in time -/

theorem inOrder_iff {a b : TimeEvent π α} :
    inOrder a b = true ↔ a.start < b.start ∨ a.start = b.start ∧ a.stop ≤ b.stop := by
  simp [inOrder]

theorem inOrder_trans (a b c : TimeEvent π α) (hab : inOrder a b = true)
    (hbc : inOrder b c = true) : inOrder a c = true := by
  rw [inOrder_iff] at *
  omega

theorem inOrder_total (a b : TimeEvent π α) : (inOrder a b || inOrder b a) = true := by
  rw [Bool.or_eq_true, inOrder_iff, inOrder_iff]
  omega

theorem start_le_of_inOrder {a b : TimeEvent π α} (h : inOrder a b = true) : a.start ≤ b.start := by
  rw [inOrder_iff] at h
  omega

theorem sorted_perm (events : List (TimeEvent π α)) : (sorted events).Perm events :=
  List.mergeSort_perm _ _

theorem pairwise_sorted (events : List (TimeEvent π α)) :
    (sorted events).Pairwise fun a b => inOrder a b = true :=
  List.pairwise_mergeSort inOrder_trans inOrder_total events

theorem mem_sorted {events : List (TimeEvent π α)} {e : TimeEvent π α} :
    e ∈ sorted events ↔ e ∈ events := (sorted_perm events).mem_iff

theorem happensBefore_iff {a b : TimeEvent π α} :
    happensBefore epsilon a b = true ↔ a.start < b.start ∧ 0 < b.start - a.stop + epsilon := by
  simp [happensBefore]

/-- Each event of the list happens before the next. -/
def Chained (epsilon : Int) (events : List (TimeEvent π α)) : Prop :=
  events.IsChain fun a b => happensBefore epsilon a b = true

/-- Happening before is not transitive, as `epsilon` adds up along a chain, but the starts
ascend. -/
theorem Chained.starts {events : List (TimeEvent π α)} (h : Chained epsilon events) :
    events.Pairwise fun a b => a.start < b.start := by
  have hstarts : (events.map start).IsChain (· < ·) :=
    (List.isChain_map start).2 (h.imp fun a b hab => (happensBefore_iff.1 hab).1)
  exact List.pairwise_map.1 hstarts.pairwise

theorem chained_singleton (e : TimeEvent π α) : Chained epsilon [e] := List.isChain_singleton e

/-- A chain goes on with what its last event happens before. -/
theorem chained_concat {earlier : List (TimeEvent π α)} {last e : TimeEvent π α} :
    Chained epsilon (earlier ++ [last] ++ [e]) ↔
      Chained epsilon (earlier ++ [last]) ∧ happensBefore epsilon last e = true := by
  unfold Chained
  rw [List.isChain_append]
  simp

/-- The time that events cover together. -/
def totalDuration (events : List (TimeEvent π α)) : Int := (events.map duration).sum

variable [AddCommMonoid π]

/-- The sum of the priorities of events. -/
def totalPriority (events : List (TimeEvent π α)) : π := (events.map priority).sum

/-- What chains are compared by: first the time they cover, then their priorities. -/
def worth (events : List (TimeEvent π α)) : Int ×ₗ π :=
  toLex (totalDuration events, totalPriority events)

theorem worth_concat (events : List (TimeEvent π α)) (e : TimeEvent π α) :
    worth (events ++ [e]) = worth events + toLex (e.duration, e.priority) := by
  simp [worth, totalDuration, totalPriority, ← toLex_add]

theorem worth_singleton (e : TimeEvent π α) : worth [e] = toLex (e.duration, e.priority) := by
  simp [worth, totalDuration, totalPriority]

/-- The chain is made of different events of the list and covers the most time of all chains of
such events, with the largest sum of priorities among those that cover as much. -/
structure IsBestChain [LinearOrder π] (epsilon : Int) (events chain : List (TimeEvent π α)) :
    Prop where
  nonempty : chain ≠ []
  chained : Chained epsilon chain
  /-- No event is there more often than in the list. -/
  distinct : chain.Subperm events
  ascending : chain.Pairwise fun a b => a.start < b.start
  longest : ∀ other, other ≠ [] → Chained epsilon other → other ⊆ events →
    totalDuration other ≤ totalDuration chain
  heaviest : ∀ other, other ≠ [] → Chained epsilon other → other ⊆ events →
    totalDuration other = totalDuration chain → totalPriority other ≤ totalPriority chain

end TimeEvent

/-! ## Building the best chains -/

namespace EventChain

open TimeEvent (Chained happensBefore totalDuration totalPriority)

variable {π α : Type} {epsilon : Int} {events : List (TimeEvent π α)} {e : TimeEvent π α}
  {c d : EventChain π α} {chains : List (EventChain π α)}

theorem events_single (e : TimeEvent π α) : (single e).events = [e] := rfl

theorem events_eq (c : EventChain π α) : c.events = c.earlier.reverse ++ [c.last] := by
  simp [events]

/-- What a chain is compared by, as it has been added up. -/
def worth (c : EventChain π α) : Int ×ₗ π := toLex (c.weight, c.priority)

section Sound

variable [AddCommMonoid π]

theorem events_extend (c : EventChain π α) (e : TimeEvent π α) :
    (c.extend e).events = c.events ++ [e] := by
  simp [extend, events]

theorem worth_extend (c : EventChain π α) (e : TimeEvent π α) :
    (c.extend e).worth = c.worth + toLex (e.duration, e.priority) := rfl

/-- The chain is one of the events, and its worth has been added up correctly. -/
structure Sound (epsilon : Int) (events : List (TimeEvent π α)) (c : EventChain π α) : Prop where
  chained : Chained epsilon c.events
  within : c.events ⊆ events
  worth : c.worth = TimeEvent.worth c.events

theorem Sound.mono {more : List (TimeEvent π α)} (h : Sound epsilon events c)
    (hsub : events ⊆ more) : Sound epsilon more c :=
  ⟨h.chained, fun _ hx => hsub (h.within hx), h.worth⟩

theorem sound_single (he : e ∈ events) : Sound epsilon events (single e) := by
  refine ⟨TimeEvent.chained_singleton e, ?_, ?_⟩
  · intro x hx
    rwa [List.mem_singleton.1 hx]
  · rw [events_single, TimeEvent.worth_singleton]
    rfl

theorem Sound.extend (h : Sound epsilon events c) (he : e ∈ events)
    (hbefore : happensBefore epsilon c.last e = true) : Sound epsilon events (c.extend e) := by
  refine ⟨?_, ?_, ?_⟩
  · have hchained := h.chained
    rw [events_eq] at hchained
    rw [events_extend, events_eq]
    exact TimeEvent.chained_concat.2 ⟨hchained, hbefore⟩
  · intro x hx
    rw [events_extend] at hx
    rcases List.mem_append.1 hx with hold | hnew
    · exact h.within hold
    · rwa [List.mem_singleton.1 hnew]
  · rw [worth_extend, h.worth, events_extend, TimeEvent.worth_concat]

end Sound

/-! ### Choosing the best -/

section Best

variable [LinearOrder π]

theorem better_iff : better c d = true ↔ d.worth < c.worth := by
  have hcomm : d.weight = c.weight ↔ c.weight = d.weight := eq_comm
  simp [better, worth, Prod.Lex.toLex_lt_toLex, hcomm]

theorem worth_le_best_left : c.worth ≤ (best c d).worth := by
  unfold best
  split
  · rename_i h
    exact (better_iff.1 h).le
  · exact le_rfl

theorem worth_le_best_right : d.worth ≤ (best c d).worth := by
  unfold best
  split
  · exact le_rfl
  · rename_i h
    exact not_lt.1 fun hlt => h (better_iff.2 hlt)

theorem mem_foldl_best (chains : List (EventChain π α)) (c : EventChain π α) :
    chains.foldl best c ∈ c :: chains := by
  induction chains generalizing c with
  | nil => exact List.mem_singleton.2 rfl
  | cons d rest ih =>
    rw [List.foldl_cons]
    rcases List.mem_cons.1 (ih (best c d)) with hbest | hrest
    · rw [hbest]
      unfold best
      split <;> simp
    · exact List.mem_cons_of_mem c (List.mem_cons_of_mem d hrest)

theorem worth_le_foldl_best (chains : List (EventChain π α)) (c : EventChain π α) :
    ∀ d ∈ c :: chains, d.worth ≤ (chains.foldl best c).worth := by
  induction chains generalizing c with
  | nil =>
    intro d hd
    rw [List.mem_singleton.1 hd]
    exact le_rfl
  | cons f rest ih =>
    intro d hd
    have hfirst := ih (best c f) (best c f) List.mem_cons_self
    rw [List.foldl_cons]
    rcases List.mem_cons.1 hd with rfl | htail
    · exact worth_le_best_left.trans hfirst
    · rcases List.mem_cons.1 htail with rfl | hrest
      · exact worth_le_best_right.trans hfirst
      · exact ih (best c f) d (List.mem_cons_of_mem _ hrest)

end Best

/-! ### The best for each event -/

variable [AddCommMonoid π] [LinearOrder π]

/-- Only the chains that an event can continue are candidates. -/
theorem bestEnding_eq (epsilon : Int) (chains : List (EventChain π α)) (e : TimeEvent π α) :
    bestEnding epsilon chains e =
      ((chains.filter fun c => c.last.happensBefore epsilon e).map fun c => c.extend e).foldl best
        (single e) := by
  rw [List.foldl_map, List.foldl_filter]
  rfl

/-- The best chain that ends with an event is the event alone or continues another chain. -/
theorem bestEnding_cases (epsilon : Int) (chains : List (EventChain π α)) (e : TimeEvent π α) :
    bestEnding epsilon chains e = single e ∨
      ∃ c ∈ chains, happensBefore epsilon c.last e = true ∧
        bestEnding epsilon chains e = c.extend e := by
  have hmem := mem_foldl_best
    ((chains.filter fun c => c.last.happensBefore epsilon e).map fun c => c.extend e) (single e)
  rw [← bestEnding_eq] at hmem
  rcases List.mem_cons.1 hmem with hsingle | hextended
  · exact Or.inl hsingle
  · rcases List.mem_map.1 hextended with ⟨c, hc, heq⟩
    rcases List.mem_filter.1 hc with ⟨hchain, hbefore⟩
    exact Or.inr ⟨c, hchain, hbefore, heq.symm⟩

theorem worth_single_le_bestEnding (epsilon : Int) (chains : List (EventChain π α))
    (e : TimeEvent π α) : (single e).worth ≤ (bestEnding epsilon chains e).worth := by
  rw [bestEnding_eq]
  exact worth_le_foldl_best _ _ _ List.mem_cons_self

theorem worth_extend_le_bestEnding (hc : c ∈ chains)
    (hbefore : happensBefore epsilon c.last e = true) :
    (c.extend e).worth ≤ (bestEnding epsilon chains e).worth := by
  rw [bestEnding_eq]
  refine worth_le_foldl_best _ _ _ (List.mem_cons_of_mem _ (List.mem_map.2 ⟨c, ?_, rfl⟩))
  exact List.mem_filter.2 ⟨hc, hbefore⟩

theorem last_bestEnding (epsilon : Int) (chains : List (EventChain π α)) (e : TimeEvent π α) :
    (bestEnding epsilon chains e).last = e := by
  rcases bestEnding_cases epsilon chains e with heq | ⟨c, -, -, heq⟩ <;> rw [heq] <;> rfl

theorem sound_bestEnding (h : ∀ c ∈ chains, Sound epsilon events c) (he : e ∈ events) :
    Sound epsilon events (bestEnding epsilon chains e) := by
  rcases bestEnding_cases epsilon chains e with heq | ⟨c, hc, hbefore, heq⟩
  · rw [heq]
    exact sound_single he
  · rw [heq]
    exact (h c hc).extend he hbefore

/-- The chains found so far: all are chains of the events seen, and for every chain of these one
that ends with the same event is at least as good. -/
structure Covers (epsilon : Int) (seen : List (TimeEvent π α)) (chains : List (EventChain π α)) :
    Prop where
  sound : ∀ c ∈ chains, Sound epsilon seen c
  best : ∀ earlier last, Chained epsilon (earlier ++ [last]) → earlier ++ [last] ⊆ seen →
    ∃ c ∈ chains, c.last = last ∧ TimeEvent.worth (earlier ++ [last]) ≤ c.worth

theorem covers_nil : Covers epsilon [] ([] : List (EventChain π α)) := by
  refine ⟨fun c hc => absurd hc List.not_mem_nil, ?_⟩
  intro earlier last _ hsub
  exact absurd (hsub (List.mem_append_right earlier List.mem_cons_self)) List.not_mem_nil

variable [IsOrderedCancelAddMonoid π]

/-- A chain that ends with the event is no better than the best one found for it, given what was
found for the events before. -/
theorem Covers.worth_le_bestEnding {seen earlier : List (TimeEvent π α)}
    (h : Covers epsilon seen chains) (hchained : Chained epsilon (earlier ++ [e]))
    (hseen : earlier ⊆ seen) :
    TimeEvent.worth (earlier ++ [e]) ≤ (bestEnding epsilon chains e).worth := by
  rcases List.eq_nil_or_concat earlier with rfl | ⟨before, last, rfl⟩
  · rw [List.nil_append, TimeEvent.worth_singleton]
    exact worth_single_le_bestEnding epsilon chains e
  · rw [List.concat_eq_append] at hchained hseen ⊢
    rcases TimeEvent.chained_concat.1 hchained with ⟨hfront, hbefore⟩
    rcases h.best before last hfront hseen with ⟨c, hc, rfl, hle⟩
    calc TimeEvent.worth (before ++ [c.last] ++ [e])
        = TimeEvent.worth (before ++ [c.last]) + toLex (e.duration, e.priority) :=
          TimeEvent.worth_concat _ e
      _ ≤ c.worth + toLex (e.duration, e.priority) := add_le_add_left hle _
      _ = (c.extend e).worth := (worth_extend c e).symm
      _ ≤ (bestEnding epsilon chains e).worth := worth_extend_le_bestEnding hc hbefore

/-- The chains stay the best when one is found for an event that starts no earlier than those
seen. -/
theorem Covers.step {seen : List (TimeEvent π α)} (h : Covers epsilon seen chains)
    (hlate : ∀ d ∈ seen, d.start ≤ e.start) :
    Covers epsilon (seen ++ [e]) (chains ++ [bestEnding epsilon chains e]) := by
  have hold : ∀ c ∈ chains, Sound epsilon (seen ++ [e]) c := fun c hc =>
    (h.sound c hc).mono (List.subset_append_left seen [e])
  have he : e ∈ seen ++ [e] := List.mem_append_right seen List.mem_cons_self
  constructor
  · intro c hc
    rcases List.mem_append.1 hc with hfound | hnew
    · exact hold c hfound
    · rw [List.mem_singleton.1 hnew]
      exact sound_bestEnding hold he
  · intro earlier last hchained hsub
    have hlast : last.start ≤ e.start := by
      rcases List.mem_append.1 (hsub (List.mem_append_right earlier List.mem_cons_self)) with
        hseen | hnew
      · exact hlate last hseen
      · rw [List.mem_singleton.1 hnew]
    -- the events before the last one start before it, so none of them is the new one
    have hearlier : earlier ⊆ seen := by
      intro d hd
      have hstart : d.start < last.start :=
        (List.pairwise_append.1 hchained.starts).2.2 d hd last List.mem_cons_self
      rcases List.mem_append.1 (hsub (List.mem_append_left [last] hd)) with hseen | hnew
      · exact hseen
      · rw [List.mem_singleton.1 hnew] at hstart
        omega
    rcases List.mem_append.1 (hsub (List.mem_append_right earlier List.mem_cons_self)) with
      hseen | hnew
    · have hall : earlier ++ [last] ⊆ seen :=
        List.append_subset.2 ⟨hearlier, List.cons_subset.2 ⟨hseen, List.nil_subset _⟩⟩
      rcases h.best earlier last hchained hall with ⟨c, hc, hends, hle⟩
      exact ⟨c, List.mem_append_left _ hc, hends, hle⟩
    · rw [List.mem_singleton.1 hnew] at hchained ⊢
      exact ⟨_, List.mem_append_right chains List.mem_cons_self, last_bestEnding epsilon chains e,
        h.worth_le_bestEnding hchained hearlier⟩

/-- Going on with events in order of time keeps the chains the best. -/
theorem Covers.foldl {seen rest : List (TimeEvent π α)} (h : Covers epsilon seen chains)
    (hsorted : (seen ++ rest).Pairwise fun a b => a.start ≤ b.start) :
    Covers epsilon (seen ++ rest)
      (rest.foldl (fun chains e => chains ++ [bestEnding epsilon chains e]) chains) := by
  induction rest generalizing seen chains with
  | nil => rwa [List.append_nil]
  | cons e rest ih =>
    have hlate : ∀ d ∈ seen, d.start ≤ e.start := fun d hd =>
      (List.pairwise_append.1 hsorted).2.2 d hd e List.mem_cons_self
    rw [List.append_cons] at hsorted ⊢
    exact ih (h.step hlate) hsorted

theorem covers_bestChains
    (hsorted : events.Pairwise fun a b => a.start ≤ b.start) :
    Covers epsilon events (bestChains epsilon events) := covers_nil.foldl hsorted

end EventChain

namespace TimeEvent

variable {π α : Type} [AddCommMonoid π] [LinearOrder π] [IsOrderedCancelAddMonoid π]
  {epsilon : Int} {events : List (TimeEvent π α)}

/-- Of the best chains for each event a best one is kept. -/
theorem exists_heaviestChain_eq (epsilon : Int) (h : events ≠ []) :
    ∃ c : EventChain π α, heaviestChain epsilon events = c.events ∧ c.Sound epsilon events ∧
      ∀ other, other ≠ [] → Chained epsilon other → other ⊆ events →
        worth other ≤ worth c.events := by
  have hcovers : EventChain.Covers epsilon (sorted events)
      (EventChain.bestChains epsilon (sorted events)) :=
    EventChain.covers_bestChains ((pairwise_sorted events).imp start_le_of_inOrder)
  have hbest : ∀ other, other ≠ [] → Chained epsilon other → other ⊆ events →
      ∃ c ∈ EventChain.bestChains epsilon (sorted events), worth other ≤ c.worth := by
    intro other hne hchained hsub
    rcases (List.eq_nil_or_concat other).resolve_left hne with ⟨earlier, last, rfl⟩
    rw [List.concat_eq_append] at hchained hsub ⊢
    rcases hcovers.best earlier last hchained fun x hx => mem_sorted.2 (hsub hx) with
      ⟨c, hc, -, hle⟩
    exact ⟨c, hc, hle⟩
  unfold heaviestChain
  cases hchains : EventChain.bestChains epsilon (sorted events) with
  | nil =>
    -- every event is a chain, so there are chains
    rcases List.exists_mem_of_ne_nil events h with ⟨e, he⟩
    rcases hbest [e] (List.cons_ne_nil e []) (chained_singleton e) (by simpa using he) with
      ⟨c, hc, -⟩
    rw [hchains] at hc
    exact absurd hc List.not_mem_nil
  | cons first rest =>
    have hmem := EventChain.mem_foldl_best rest first
    have hsound := hcovers.sound (rest.foldl EventChain.best first) (hchains ▸ hmem)
    refine ⟨_, rfl, hsound.mono fun x hx => mem_sorted.1 hx, ?_⟩
    intro other hne hchained hsub
    rcases hbest other hne hchained hsub with ⟨c, hc, hle⟩
    rw [hchains] at hc
    calc worth other ≤ c.worth := hle
      _ ≤ (rest.foldl EventChain.best first).worth :=
        EventChain.worth_le_foldl_best rest first c hc
      _ = worth (rest.foldl EventChain.best first).events := hsound.worth

/-- A filter by weight keeps a best chain of the events, and none of no events. -/
theorem weightedHash_keeps_best_chain (epsilon : Int) :
    filtered .weightedHash epsilon ([] : List (TimeEvent π α)) = [] ∧
      ∀ events : List (TimeEvent π α), events ≠ [] →
        IsBestChain epsilon events (filtered .weightedHash epsilon events) := by
  refine ⟨by simp [filtered, heaviestChain, sorted, EventChain.bestChains], ?_⟩
  intro events hne
  rcases exists_heaviestChain_eq epsilon hne with ⟨c, hkept, hsound, hbest⟩
  rw [filtered, hkept]
  have hascending := hsound.chained.starts
  refine ⟨?_, hsound.chained, ?_, hascending, ?_, ?_⟩
  · rw [c.events_eq]
    exact List.append_ne_nil_of_right_ne_nil _ (List.cons_ne_nil _ _)
  · -- starts ascend, so no event is there twice
    have hnodup : c.events.Nodup := hascending.imp fun hlt heq => by
      rw [heq] at hlt
      exact lt_irrefl _ hlt
    exact hnodup.subperm hsound.within
  · intro other hne' hchained hsub
    rcases Prod.Lex.toLex_le_toLex.1 (hbest other hne' hchained hsub) with hlt | ⟨heq, -⟩
    · exact hlt.le
    · exact heq.le
  · intro other hne' hchained hsub hsame
    rcases Prod.Lex.toLex_le_toLex.1 (hbest other hne' hchained hsub) with hlt | ⟨-, hle⟩
    · exact absurd hsame hlt.ne
    · exact hle

/-- Passes of a satellite over a station, out of order. The recording of the first was corrected,
and the last stops before it starts. -/
def passes : List (TimeEvent ℚ String) :=
  [⟨8, 20, 1, "second"⟩, ⟨0, 10, 1, "first"⟩, ⟨17, 30, 1, "third"⟩, ⟨0, 10, 3 / 2, "corrected"⟩,
    ⟨19, 17, 9, "reversed"⟩]

/-- With a tolerance, passes make a chain of which each overlaps with the next. -/
theorem passes_best_chain :
    passes ≠ [] ∧ IsBestChain 5 passes
      [⟨0, 10, 3 / 2, "corrected"⟩, ⟨8, 20, 1, "second"⟩, ⟨17, 30, 1, "third"⟩] := by
  have hne : passes ≠ [] := List.cons_ne_nil _ _
  have hsorted : sorted passes =
      [⟨0, 10, 1, "first"⟩, ⟨0, 10, 3 / 2, "corrected"⟩, ⟨8, 20, 1, "second"⟩,
        ⟨17, 30, 1, "third"⟩, ⟨19, 17, 9, "reversed"⟩] := by
    simp [sorted, passes, List.mergeSort, List.MergeSort.Internal.splitInTwo, inOrder]
  have hkept : filtered .weightedHash 5 passes =
      [⟨0, 10, 3 / 2, "corrected"⟩, ⟨8, 20, 1, "second"⟩, ⟨17, 30, 1, "third"⟩] := by
    rw [filtered, heaviestChain, hsorted]
    decide +kernel
  exact ⟨hne, hkept ▸ (weightedHash_keeps_best_chain 5).2 passes hne⟩

end TimeEvent

/-! ## Highest priorities -/

namespace TimeEvent

variable {π α : Type} [LinearOrder π] {epsilon : Int} {events events' : List (TimeEvent π α)}
  {e : TimeEvent π α}

end TimeEvent

end ArchiveCatalog
