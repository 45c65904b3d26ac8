import Mathlib.Data.Set.Card
import ArchiveCatalog.Proofs.Inverted.Slots

namespace ArchiveCatalog.Inverted

/-! # Shared slots

Whoever works on a product keeps a handle of its slot, and several may do so at once. The slot
counts the handles that are out, so it is not dropped before the last of them is given back: every
handle that is kept leads to the slot that the cache has for the product, and a product never has
two slots with a state each.
-/

/-- A use of the cache. Only a handle that is kept can be written through or given back. -/
inductive CacheStep
  /-- The slot is made if need be, and its handle is given back at once. -/
  | touch (id : String)
  | store (id : String) (pending : Option Pending)
  | keep (id : String)
  | write (h : Handle) (pending : Option Pending)
  | giveBack (h : Handle)
  | release (id : String)
  deriving DecidableEq

/-- The product whose waiting state a step replaces. -/
def CacheStep.target? : CacheStep → Option String
  | .store id _ => some id
  | .write h _ => some h.id
  | _ => none

/-- A cache and the handles of its slots that are kept. -/
structure CacheUse where
  cache : AssemblyCache
  kept : List Handle

namespace CacheUse

/-- A new cache. -/
def start : CacheUse := ⟨.empty, []⟩

/-- Takes a step. -/
def step (u : CacheUse) : CacheStep → CacheUse
  | .touch id => { u with cache := u.cache.reserve id }
  | .store id pending => { u with cache := u.cache.store id pending }
  | .keep id => ⟨(u.cache.hold id).2, (u.cache.hold id).1 :: u.kept⟩
  | .write h pending => if h ∈ u.kept then { u with cache := u.cache.write h pending } else u
  | .giveBack h => if h ∈ u.kept then ⟨u.cache.letGo h, u.kept.erase h⟩ else u
  | .release id => { u with cache := u.cache.release id }

/-- A new cache after steps. -/
def after (steps : List CacheStep) : CacheUse := steps.foldl step start

end CacheUse

/-! ## Numbers of slots -/

namespace AssemblyCache

variable {c : AssemblyCache} {id other : String}

/-- The number of the slot of a product. -/
def number? (c : AssemblyCache) (id : String) : Option Nat := (c.slot? id).map Slot.number

theorem number_slotOrNew : (c.slotOrNew id).number = (c.number? id).getD c.made := by
  unfold slotOrNew number?
  cases c.slot? id <;> rfl

theorem number?_reserve : (c.reserve id).number? other =
    if other = id then some ((c.number? id).getD c.made) else c.number? other := by
  rw [number?, slot?_reserve]
  split
  · rw [Option.map_some, number_slotOrNew]
  · rfl

theorem number?_change {f : Slot → Slot} (hf : ∀ slot, (f slot).number = slot.number) :
    (c.change id f).number? other = c.number? other := by
  rw [number?, slot?_change]
  split
  · rw [Option.map_map]
    exact congrFun (congrArg Option.map (funext hf)) _
  · rfl

theorem reserve_of_slot? {slot : Slot} (h : c.slot? id = some slot) : c.reserve id = c := by
  rw [reserve, h]

theorem made_le_reserve : c.made ≤ (c.reserve id).made := by
  unfold reserve
  split
  · exact Nat.le_refl _
  · exact Nat.le_succ _

/-- Only a new slot uses up a number. -/
theorem made_reserve_of_none (h : c.slot? id = none) : (c.reserve id).made = c.made + 1 := by
  rw [reserve, h]

theorem made_release : (c.release id).made = c.made := by
  unfold release
  split <;> rfl

end AssemblyCache

/-! ## What every step keeps -/

namespace CacheUse

/-- Numbers of slots are used up and not given back. -/
theorem made_le_step (u : CacheUse) (s : CacheStep) : u.cache.made ≤ (u.step s).cache.made := by
  cases s with
  | touch id | store id p | keep id => exact AssemblyCache.made_le_reserve
  | write k p | giveBack k =>
    rw [CacheUse.step]
    split <;> exact Nat.le_refl _
  | release id => exact Nat.le_of_eq AssemblyCache.made_release.symm

/-- The slots have different ids and different numbers, each counts its handles, and every handle
that is kept has the number of the slot that is there. -/
structure Sound (u : CacheUse) : Prop where
  ids : (u.cache.slots.map Prod.fst).Nodup
  used : ∀ id n, u.cache.number? id = some n → n < u.cache.made
  apart : ∀ id other n, u.cache.number? id = some n → u.cache.number? other = some n → id = other
  live : ∀ h ∈ u.kept, u.cache.number? h.id = some h.number
  counted : ∀ id slot, u.cache.slot? id = some slot → slot.holders = u.kept.count ⟨id, slot.number⟩

namespace Sound

variable {u : CacheUse}

theorem start : Sound start where
  ids := List.nodup_nil
  used _ _ h := by cases h
  apart _ _ _ h := by cases h
  live _ h := absurd h List.not_mem_nil
  counted _ _ h := by cases h

/-- A new slot has a number that no other has had, and nobody keeps a handle of it. -/
theorem reserve (h : u.Sound) (id : String) : Sound { u with cache := u.cache.reserve id } := by
  cases hslot : u.cache.slot? id with
  | some slot => rwa [AssemblyCache.reserve_of_slot? hslot]
  | none =>
    have hnumber : u.cache.number? id = none := by rw [AssemblyCache.number?, hslot]; rfl
    have hnew : ∀ other, (u.cache.reserve id).number? other =
        if other = id then some u.cache.made else u.cache.number? other := by
      intro other
      rw [AssemblyCache.number?_reserve, hnumber]
      rfl
    constructor
    case ids => exact AssemblyCache.nodup_ids_reserve h.ids id
    case used =>
      intro other n hn
      rw [hnew] at hn
      show n < (u.cache.reserve id).made
      rw [AssemblyCache.made_reserve_of_none hslot]
      split at hn
      · cases hn
        exact Nat.lt_succ_self _
      · exact Nat.lt_succ_of_lt (h.used other n hn)
    case apart =>
      intro a b n ha hb
      rw [hnew] at ha hb
      split at ha <;> split at hb
      · rename_i ha' hb'
        rw [ha', hb']
      · cases ha
        exact absurd (h.used b _ hb) (Nat.lt_irrefl _)
      · cases hb
        exact absurd (h.used a _ ha) (Nat.lt_irrefl _)
      · exact h.apart a b n ha hb
    case live =>
      intro k hk
      have hkept := h.live k hk
      rw [hnew, if_neg, hkept]
      rintro rfl
      cases hnumber.symm.trans hkept
    case counted =>
      intro other slot hother
      rw [AssemblyCache.slot?_reserve] at hother
      split at hother
      · rename_i heq
        cases hother
        rw [AssemblyCache.slotOrNew, hslot, Option.getD_none, eq_comm, List.count_eq_zero]
        intro hk
        have hkept := h.live _ hk
        rw [heq] at hkept
        cases hnumber.symm.trans hkept
      · exact h.counted other slot hother

/-- A slot is changed together with the handles that are kept of it. -/
theorem change (h : u.Sound) {id : String} {f : Slot → Slot} {kept : List Handle}
    (hf : ∀ slot, (f slot).number = slot.number)
    (hlive : ∀ k ∈ kept, u.cache.number? k.id = some k.number)
    (hcount : ∀ slot, u.cache.slot? id = some slot →
      (f slot).holders = kept.count ⟨id, slot.number⟩)
    (hothers : ∀ other n, other ≠ id → kept.count ⟨other, n⟩ = u.kept.count ⟨other, n⟩) :
    Sound ⟨u.cache.change id f, kept⟩ := by
  constructor
  case ids =>
    rw [AssemblyCache.ids_change]
    exact h.ids
  case used =>
    intro other n hn
    rw [AssemblyCache.number?_change hf] at hn
    exact h.used other n hn
  case apart =>
    intro a b n ha hb
    rw [AssemblyCache.number?_change hf] at ha hb
    exact h.apart a b n ha hb
  case live =>
    intro k hk
    rw [AssemblyCache.number?_change hf]
    exact hlive k hk
  case counted =>
    intro other slot hslot
    rw [AssemblyCache.slot?_change] at hslot
    split at hslot
    · rename_i heq
      subst heq
      rcases Option.map_eq_some_iff.1 hslot with ⟨old, hold, rfl⟩
      rw [hf]
      exact hcount old hold
    · rename_i hne
      rw [hothers other _ hne]
      exact h.counted other slot hslot

/-- Whatever does not touch the handles may happen to a slot. -/
theorem change_idle (h : u.Sound) (id : String) {f : Slot → Slot}
    (hf : ∀ slot, (f slot).number = slot.number ∧ (f slot).holders = slot.holders) :
    Sound { u with cache := u.cache.change id f } :=
  h.change (fun slot => (hf slot).1) h.live
    (fun slot hslot => (hf slot).2.trans (h.counted id slot hslot)) fun _ _ _ => rfl

theorem hold (h : u.Sound) (id : String) :
    Sound ⟨(u.cache.hold id).2, (u.cache.hold id).1 :: u.kept⟩ := by
  have hreserved := h.reserve id
  have hnumber : (u.cache.reserve id).number? id = some (u.cache.handleOf id).number := by
    rw [AssemblyCache.number?_reserve, if_pos rfl, AssemblyCache.handleOf,
      AssemblyCache.number_slotOrNew]
  show Sound ⟨(u.cache.reserve id).change id fun slot => { slot with holders := slot.holders + 1 },
    u.cache.handleOf id :: u.kept⟩
  refine hreserved.change (fun _ => rfl) ?_ ?_ ?_
  · exact List.forall_mem_cons.2 ⟨hnumber, hreserved.live⟩
  · intro slot hslot
    have hsame : u.cache.handleOf id = ⟨id, slot.number⟩ := by
      rw [AssemblyCache.number?, hslot, Option.map_some, Option.some.injEq] at hnumber
      rw [hnumber]
      rfl
    show slot.holders + 1 = (u.cache.handleOf id :: u.kept).count _
    rw [hsame, List.count_cons_self]
    exact congrArg (· + 1) (hreserved.counted id slot hslot)
  · intro other n hne
    refine List.count_cons_of_ne fun heq => hne ?_
    exact (congrArg Handle.id heq).symm

theorem letGo (h : u.Sound) {k : Handle} (hk : k ∈ u.kept) :
    Sound ⟨u.cache.letGo k, u.kept.erase k⟩ := by
  show Sound ⟨u.cache.change k.id fun slot =>
    if slot.number = k.number then { slot with holders := slot.holders - 1 } else slot,
    u.kept.erase k⟩
  refine h.change (fun slot => ?_) (fun m hm => h.live m (List.mem_of_mem_erase hm)) ?_ ?_
  · split <;> rfl
  · intro slot hslot
    have hnumber := h.live k hk
    rw [AssemblyCache.number?, hslot, Option.map_some, Option.some.injEq] at hnumber
    rw [if_pos hnumber, hnumber, List.count_erase_self]
    show slot.holders - 1 = _
    rw [h.counted k.id slot hslot, hnumber]
  · intro other n hne
    refine List.count_erase_of_ne fun heq => hne ?_
    exact congrArg Handle.id heq

/-- A slot that goes has no handle out. -/
theorem release (h : u.Sound) (id : String) : Sound { u with cache := u.cache.release id } := by
  have hkept : ∀ other slot, (u.cache.release id).slot? other = some slot →
      u.cache.slot? other = some slot := by
    intro other slot hslot
    rw [AssemblyCache.slot?_release] at hslot
    split at hslot
    · rename_i heq
      rw [heq]
      exact (Option.filter_eq_some_iff.1 hslot).1
    · exact hslot
  have hnumber : ∀ other n, (u.cache.release id).number? other = some n →
      u.cache.number? other = some n := by
    intro other n hn
    rcases Option.map_eq_some_iff.1 hn with ⟨slot, hslot, rfl⟩
    rw [AssemblyCache.number?, hkept other slot hslot, Option.map_some]
  constructor
  case ids => exact AssemblyCache.nodup_ids_release h.ids id
  case used =>
    intro other n hn
    show n < (u.cache.release id).made
    rw [AssemblyCache.made_release]
    exact h.used other n (hnumber other n hn)
  case apart =>
    exact fun a b n ha hb => h.apart a b n (hnumber a n ha) (hnumber b n hb)
  case live =>
    intro k hk
    rcases Option.map_eq_some_iff.1 (h.live k hk) with ⟨slot, hslot, hn⟩
    -- the handle is counted, so the slot stays
    have hheld : slot.holders ≠ 0 := by
      rw [h.counted k.id slot hslot, hn]
      exact Nat.ne_of_gt (List.count_pos_iff.2 hk)
    have hstays : (u.cache.release id).slot? k.id = some slot := by
      rw [AssemblyCache.slot?_release]
      split
      · rename_i heq
        rw [← heq, hslot, Option.filter_some, bne_iff_ne.2 hheld, Bool.or_true, if_pos rfl]
      · exact hslot
    show (u.cache.release id).number? k.id = _
    rw [AssemblyCache.number?, hstays, Option.map_some, hn]
  case counted => exact fun other slot hslot => h.counted other slot (hkept other slot hslot)

theorem step (h : u.Sound) (s : CacheStep) : (u.step s).Sound := by
  cases s with
  | touch id => exact h.reserve id
  | store id pending => exact (h.reserve id).change_idle id fun _ => ⟨rfl, rfl⟩
  | keep id => exact h.hold id
  | write k pending =>
    rw [CacheUse.step]
    split
    · show Sound { u with
        cache := u.cache.change k.id fun slot =>
          if slot.number = k.number then { slot with pending } else slot }
      refine h.change_idle k.id fun slot => ?_
      split <;> exact ⟨rfl, rfl⟩
    · exact h
  | giveBack k =>
    rw [CacheUse.step]
    split
    · rename_i hk
      exact h.letGo hk
    · exact h
  | release id => exact h.release id

theorem after (steps : List CacheStep) : (CacheUse.after steps).Sound := by
  have hrun : ∀ (steps : List CacheStep) (u : CacheUse), u.Sound →
      (steps.foldl CacheUse.step u).Sound := by
    intro steps
    induction steps with
    | nil => exact fun _ h => h
    | cons s rest ih => exact fun u h => ih _ (h.step s)
  exact hrun steps _ start

/-! ## What a handle leads to -/

theorem handleOf_eq (h : u.Sound) {k : Handle} (hk : k ∈ u.kept) : u.cache.handleOf k.id = k := by
  rw [AssemblyCache.handleOf, AssemblyCache.number_slotOrNew, h.live k hk]
  rfl

theorem slot?_of_mem (h : u.Sound) {k : Handle} (hk : k ∈ u.kept) :
    ∃ slot, u.cache.slot? k.id = some slot ∧ slot.number = k.number :=
  Option.map_eq_some_iff.1 (h.live k hk)

theorem read?_eq (h : u.Sound) {k : Handle} (hk : k ∈ u.kept) :
    u.cache.read? k = u.cache.pending? k.id := by
  rcases h.slot?_of_mem hk with ⟨slot, hslot, hn⟩
  rw [AssemblyCache.read?, AssemblyCache.pending?, hslot, Option.filter_some, beq_iff_eq.2 hn,
    if_pos rfl]

/-- What is written through a handle waits in the slot of the product. -/
theorem write_eq_store (h : u.Sound) {k : Handle} (hk : k ∈ u.kept) (p : Option Pending)
    (other : String) :
    (u.cache.write k p).slot? other = (u.cache.store k.id p).slot? other := by
  rcases h.slot?_of_mem hk with ⟨slot, hslot, hn⟩
  rw [AssemblyCache.write, AssemblyCache.changeBy, AssemblyCache.slot?_change,
    AssemblyCache.slot?_store]
  split
  · rename_i heq
    rw [heq, AssemblyCache.slotOrNew, hslot, Option.map_some, if_pos hn, Option.getD_some]
  · rfl

theorem pending?_write (h : u.Sound) {k : Handle} (hk : k ∈ u.kept) (p : Option Pending)
    (other : String) :
    (u.cache.write k p).pending? other = if other = k.id then p else u.cache.pending? other := by
  rw [← AssemblyCache.pending?_store, AssemblyCache.pending?, h.write_eq_store hk,
    AssemblyCache.pending?]

theorem pending?_step (h : u.Sound) {s : CacheStep} {id : String} (hs : s.target? ≠ some id) :
    (u.step s).cache.pending? id = u.cache.pending? id := by
  have hchange : ∀ (c : AssemblyCache) (id' : String) (f : Slot → Slot),
      (∀ slot, (f slot).pending = slot.pending) → (c.change id' f).pending? id = c.pending? id := by
    intro c id' f hf
    rw [AssemblyCache.pending?, AssemblyCache.slot?_change, AssemblyCache.pending?]
    split
    · cases c.slot? id with
      | none => rfl
      | some slot => exact hf slot
    · rfl
  cases s with
  | touch other => exact AssemblyCache.pending?_reserve
  | store other p =>
    have hne : id ≠ other := fun heq => hs (congrArg some heq.symm)
    exact AssemblyCache.pending?_store p |>.trans (if_neg hne)
  | keep other =>
    show ((u.cache.reserve other).change other _).pending? id = _
    rw [hchange]
    · exact AssemblyCache.pending?_reserve
    · exact fun _ => rfl
  | write k p =>
    have hne : id ≠ k.id := fun heq => hs (congrArg some heq.symm)
    rw [CacheUse.step]
    split
    · rename_i hk
      exact (h.pending?_write hk p id).trans (if_neg hne)
    · rfl
  | giveBack k =>
    rw [CacheUse.step]
    split
    · refine hchange _ k.id _ fun slot => ?_
      split <;> rfl
    · rfl
  | release other => exact AssemblyCache.pending?_release

theorem slot?_release_eq_none_iff (h : u.Sound) {id : String} :
    (u.cache.release id).slot? id = none ↔
      u.cache.pending? id = none ∧ ∀ k ∈ u.kept, k.id ≠ id := by
  rw [AssemblyCache.slot?_release, if_pos rfl, AssemblyCache.pending?]
  cases hslot : u.cache.slot? id with
  | none =>
    have hnobody : ∀ k ∈ u.kept, k.id ≠ id := by
      rintro k hk rfl
      rcases h.slot?_of_mem hk with ⟨slot, hfound, -⟩
      cases hslot.symm.trans hfound
    exact iff_of_true rfl ⟨rfl, hnobody⟩
  | some slot =>
    have hholders : slot.holders = 0 ↔ ∀ k ∈ u.kept, k.id ≠ id := by
      rw [h.counted id slot hslot, List.count_eq_zero]
      constructor
      · rintro hnone k hk rfl
        have hn := h.live k hk
        rw [AssemblyCache.number?, hslot, Option.map_some, Option.some.injEq] at hn
        exact hnone (by rwa [hn])
      · exact fun hnone hk => hnone _ hk rfl
    rw [← hholders, Option.filter_some, Option.bind_some]
    cases slot.pending <;> simp

theorem size_eq (h : u.Sound) : u.cache.size = {id | u.cache.slot? id ≠ none}.ncard := by
  have hset : {id | u.cache.slot? id ≠ none} =
      ((u.cache.slots.map Prod.fst).toFinset : Set String) := by
    ext id
    rw [Set.mem_ofPred_eq, AssemblyCache.slot?, Ne, List.lookup_eq_none_iff]
    simp
  rw [hset, Set.ncard_coe_finset, List.toFinset_card_of_nodup h.ids, List.length_map,
    AssemblyCache.size]

end Sound

/-! ## The cache in use -/

/-- Slots are neither split nor lost while a cache is used. -/
structure Intact (u : CacheUse) : Prop where
  /-- Whoever asks for a slot of which a handle is kept is given the same. -/
  same : ∀ k ∈ u.kept, (u.cache.hold k.id).1 = k ∧ (u.cache.slot? k.id).isSome = true
  /-- A slot that is made anew has the next number, so it is none of those before it. -/
  anew : ∀ id, u.cache.slot? id = none → (u.cache.hold id).1.number = u.cache.made
  used : ∀ id n, u.cache.number? id = some n → n < u.cache.made
  counting : ∀ s, u.cache.made ≤ (u.step s).cache.made
  /-- Slots of different products are different. -/
  apart : ∀ id other n, u.cache.number? id = some n → u.cache.number? other = some n → id = other
  /-- A handle shows what waits for the product. -/
  shared : ∀ k ∈ u.kept, u.cache.read? k = u.cache.pending? k.id
  /-- What is written through a handle is seen by everyone. -/
  written : ∀ k ∈ u.kept, ∀ p, (u.step (.write k p)).cache.pending? k.id = p ∧
    ∀ m ∈ u.kept, m.id = k.id → (u.step (.write k p)).cache.read? m = p
  /-- What is stored is seen through the handles that are kept. -/
  stored : ∀ id p, (u.step (.store id p)).cache.pending? id = p ∧
    ∀ m ∈ u.kept, m.id = id → (u.step (.store id p)).cache.read? m = p
  /-- No other step changes what waits for a product, least of all the release of a slot. -/
  waiting : ∀ s id, s.target? ≠ some id → (u.step s).cache.pending? id = u.cache.pending? id
  released : ∀ id, (u.step (.release id)).cache.slot? id = none ↔
    u.cache.pending? id = none ∧ ∀ k ∈ u.kept, k.id ≠ id
  size : u.cache.size = {id | u.cache.slot? id ≠ none}.ncard

/-- However a cache is used, its slots are neither split nor lost. -/
theorem intact_after (steps : List CacheStep) : (after steps).Intact := by
  have h := Sound.after steps
  constructor
  case same =>
    intro k hk
    rcases h.slot?_of_mem hk with ⟨slot, hslot, -⟩
    exact ⟨h.handleOf_eq hk, by rw [hslot]; rfl⟩
  case anew =>
    intro id hnone
    rw [AssemblyCache.hold, AssemblyCache.handleOf, AssemblyCache.slotOrNew, hnone]
    rfl
  case used => exact h.used
  case counting => exact made_le_step _
  case apart => exact h.apart
  case shared => exact fun k hk => h.read?_eq hk
  case written =>
    intro k hk p
    have hstep : (after steps).step (.write k p) =
        { after steps with cache := (after steps).cache.write k p } := if_pos hk
    have hnext := h.step (.write k p)
    rw [hstep] at hnext ⊢
    have hpending := h.pending?_write hk p k.id
    rw [if_pos rfl] at hpending
    refine ⟨hpending, fun m hm hid => ?_⟩
    rw [hnext.read?_eq hm, hid]
    exact hpending
  case stored =>
    intro id p
    have hpending : ((after steps).cache.store id p).pending? id = p := by
      rw [AssemblyCache.pending?_store, if_pos rfl]
    refine ⟨hpending, fun m hm hid => ?_⟩
    rw [(h.step (.store id p)).read?_eq hm, hid]
    exact hpending
  case waiting => exact fun s id hs => h.pending?_step hs
  case released => exact fun id => h.slot?_release_eq_none_iff
  case size => exact h.size_eq

/-- A slot stays while a handle of it is kept, however often it is released. -/
example : (after [.keep "a", .release "a"]).cache.size = 1 ∧
    (after [.keep "a", .release "a", .giveBack ⟨"a", 0⟩, .release "a"]).cache.size = 0 := by
  decide

end CacheUse

end ArchiveCatalog.Inverted
