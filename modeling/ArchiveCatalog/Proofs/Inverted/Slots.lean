import ArchiveCatalog.Proofs.Attempts
import ArchiveCatalog.Proofs.Inverted.Answers

namespace ArchiveCatalog.Inverted

/-! # Full slots

Between operations every slot is full and idle; only within a write the slot of the written
product may be empty. A write that makes or empties it releases it at the end, however it ends,
so the cache never keeps an empty slot.
-/

namespace AssemblyCache

/-- No product has two slots, no handle is out, and no slot is empty but perhaps a spare one. -/
structure Filled (c : AssemblyCache) (spare : Option String) : Prop where
  ids : (c.slots.map Prod.fst).Nodup
  idle : ∀ id slot, c.slot? id = some slot → slot.holders = 0
  full : ∀ id slot, c.slot? id = some slot → some id ≠ spare → slot.pending.isSome = true

variable {c : AssemblyCache} {id : String}

theorem filled_empty : empty.Filled none := by
  refine ⟨List.nodup_nil, ?_, ?_⟩
  · intro id slot h
    cases h
  · intro id slot h
    cases h

theorem ids_change (f : Slot → Slot) :
    (c.change id f).slots.map Prod.fst = c.slots.map Prod.fst := by
  unfold change
  rw [List.map_map]
  apply List.map_congr_left
  intro entry _
  dsimp only [Function.comp]
  split <;> rfl

theorem nodup_ids_reserve (h : (c.slots.map Prod.fst).Nodup) (id : String) :
    ((c.reserve id).slots.map Prod.fst).Nodup := by
  unfold reserve
  cases hnone : c.slot? id with
  | some slot => exact h
  | none =>
    refine List.nodup_cons.2 ⟨?_, h⟩
    intro hmem
    rcases List.mem_map.1 hmem with ⟨entry, hentry, hid⟩
    exact absurd (List.lookup_eq_none_iff.1 hnone entry hentry) (by simp [hid])

theorem nodup_ids_release (h : (c.slots.map Prod.fst).Nodup) (id : String) :
    ((c.release id).slots.map Prod.fst).Nodup := by
  unfold release
  split
  · exact h.sublist (List.filter_sublist.map _)
  · exact h

theorem Filled.spare (h : c.Filled none) (id : String) : c.Filled (some id) :=
  ⟨h.ids, h.idle, fun other slot hslot _ => h.full other slot hslot (by simp)⟩

theorem Filled.idle_slotOrNew {spare : Option String} (h : c.Filled spare) (id : String) :
    (c.slotOrNew id).holders = 0 := by
  unfold slotOrNew
  cases hslot : c.slot? id with
  | some slot => exact h.idle id slot hslot
  | none => rfl

/-- The slot that a write makes is the spare one. -/
theorem Filled.reserve (h : c.Filled none) (id : String) : (c.reserve id).Filled (some id) := by
  refine ⟨nodup_ids_reserve h.ids id, ?_, ?_⟩
  · intro other slot hother
    rw [slot?_reserve] at hother
    split at hother
    · cases hother
      exact h.idle_slotOrNew id
    · exact h.idle other slot hother
  · intro other slot hother hspare
    rw [slot?_reserve, if_neg (by simpa using hspare)] at hother
    exact h.full other slot hother (by simp)

/-- The spare slot may be filled and emptied. -/
theorem Filled.store (h : c.Filled (some id)) (p : Option Pending) :
    (c.store id p).Filled (some id) := by
  refine ⟨?_, ?_, ?_⟩
  · rw [AssemblyCache.store, ids_change]
    exact nodup_ids_reserve h.ids id
  · intro other slot hother
    rw [slot?_store] at hother
    split at hother
    · cases hother
      exact h.idle_slotOrNew id
    · exact h.idle other slot hother
  · intro other slot hother hspare
    rw [slot?_store, if_neg (by simpa using hspare)] at hother
    exact h.full other slot hother hspare

/-- Afterwards the spare slot is full or gone. -/
theorem Filled.release (h : c.Filled (some id)) : (c.release id).Filled none := by
  refine ⟨nodup_ids_release h.ids id, ?_, ?_⟩
  · intro other slot hother
    rw [slot?_release] at hother
    split at hother
    · exact h.idle id slot (Option.filter_eq_some_iff.1 hother).1
    · exact h.idle other slot hother
  · intro other slot hother _
    rw [slot?_release] at hother
    split at hother
    · rcases Option.filter_eq_some_iff.1 hother with ⟨hslot, hkept⟩
      simpa [h.idle id slot hslot] using hkept
    · rename_i hne
      exact h.full other slot hother (by simpa using hne)

end AssemblyCache

namespace Store

open ArchiveCatalog.Action (Keeps)

variable {s : Store} {id : String} {p : Product}

/-- What a write does in the slot of its product leaves the other slots filled. -/
abbrev FilledBut (id : String) (a : Archive) : Prop := a.cache.Filled (some id)

/-- All slots are filled. -/
abbrev Filled (a : Archive) : Prop := a.cache.Filled none

theorem keeps_filled_withSlot {α : Type} {action : Action Archive α}
    (h : Keeps (FilledBut id) action) : Keeps Filled (withSlot id action) := fun a ha =>
  (h { a with cache := a.cache.reserve id } (AssemblyCache.Filled.reserve ha id)).release

theorem keeps_filled_store (f : Archive → Option Pending) :
    Keeps (FilledBut id) (modify fun a => a.store id (f a)) := fun a ha =>
  AssemblyCache.Filled.store ha (f a)

theorem filled_settle {a : Archive} (ha : FilledBut id a) (q : Pending) :
    FilledBut id (a.settle id q) := by
  unfold Archive.settle
  split
  · exact AssemblyCache.Filled.store ha none
  · split
    · exact AssemblyCache.Filled.store ha _
    · exact AssemblyCache.Filled.store ha (some q)

theorem keeps_filled_load : Keeps (FilledBut id) (s.load id) := by
  refine Action.silent_get.keeps.bind fun a => ?_
  split
  · exact (Action.silent_pure _).keeps
  · exact (silent_loadPending id).keeps.bind fun q =>
      (keeps_filled_store fun _ => some q).bind fun _ => (Action.silent_pure _).keeps

theorem keeps_filled_onPending (change : Action Pending Unit) :
    Keeps (FilledBut id) (onPending id change) := by
  intro a ha
  cases hpending : a.cache.pending? id with
  | some q =>
    rw [run_onPending hpending]
    exact AssemblyCache.Filled.store ha _
  | none =>
    rw [run_onPending_of_none hpending]
    exact ha

theorem keeps_filled_flush : Keeps (FilledBut id) (flush id) := by
  intro a ha
  rw [flush, Action.run_modify]
  split
  · exact filled_settle ha _
  · exact ha

theorem keeps_filled_changeInSlot (change : Action Pending Unit) :
    Keeps (FilledBut id) (s.changeInSlot id change) := by
  refine keeps_filled_load.bind fun loaded => ?_
  refine Keeps.bind (Keeps.tryCatch (keeps_filled_onPending change) ?_) fun _ => keeps_filled_flush
  intro e
  cases loaded with
  | true =>
    exact (keeps_filled_store fun _ => none).bind fun _ => (Action.silent_throw e).keeps
  | false => exact (Action.silent_throw e).keeps

theorem keeps_filled_mutate (change : Action Pending Unit) :
    Keeps Filled (s.mutate p change) :=
  (Action.silent_ofExcept _).keeps.bind fun _ =>
    keeps_filled_withSlot (keeps_filled_changeInSlot change)

theorem keeps_filled_add (r : Registration) : Keeps Filled (s.add r p) :=
  (Action.silent_ofExcept _).keeps.bind fun _ => (Action.silent_ofExcept _).keeps.bind fun _ =>
    (keeps_filled_withSlot (keeps_filled_store fun _ => some _)).bind fun _ =>
      (Action.silent_pure _).keeps

theorem keeps_filled_eraseInSlot : Keeps (FilledBut id) (eraseInSlot id) := by
  intro a ha
  rw [eraseInSlot, Action.run_bind_ok (Action.run_get a)]
  cases a.cache.pending? id with
  | some q =>
    have hcache : ((if q.indexed then a.withdraw id else a).store id none).cache =
        a.cache.store id none := by
      cases q.indexed <;> rfl
    show AssemblyCache.Filled ((if q.indexed then a.withdraw id else a).store id none).cache _
    rw [hcache]
    exact AssemblyCache.Filled.store ha none
  | none =>
    exact ((silent_requireDocument id).bind fun _ => Action.silent_pure _).bind_property ha
      fun _ => ha

theorem keeps_filled_remove : Keeps Filled (remove p) :=
  (Action.silent_ofExcept _).keeps.bind fun _ => keeps_filled_withSlot keeps_filled_eraseInSlot

/-- Whatever calls fail, every operation leaves all slots filled. -/
theorem keeps_filled_perform (op : Operation) : Keeps Filled (s.catalog.perform op) := by
  cases op with
  | add r p => exact (keeps_filled_add r).answer _
  | modify p | setStatus p | addReferences p | addMetadata m p | removeMetadata m p =>
    exact (keeps_filled_mutate _).answer _
  | remove p => exact keeps_filled_remove.answer _
  | _ => exact (silent_perform rfl).keeps

/-- The index catalog while calls to collaborators fail. -/
def catalogDuring (s : Store) (o : Outage) : Catalog Archive :=
  Store.catalog { s with schema := s.schema.during o }

theorem filled_afterAttempts (s : Store) (attempts : List Attempt) :
    Filled (Catalog.afterAttempts s.catalogDuring .empty attempts) :=
  Catalog.afterAttempts_induction (fun _ => keeps_filled_perform) AssemblyCache.filled_empty
    attempts

end Store

end ArchiveCatalog.Inverted
