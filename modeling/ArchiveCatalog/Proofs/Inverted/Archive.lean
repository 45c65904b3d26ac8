import ArchiveCatalog.Inverted.Store
import ArchiveCatalog.Proofs.Action
import ArchiveCatalog.Proofs.Metadata

namespace ArchiveCatalog.Inverted

/-! # What an archive holds

Of an archive only its documents and what waits in its slots can be told from outside. Slots
are made, released and numbered without a trace in either, so a write is known by the
documents it leaves and by what it leaves waiting.
-/

/-! ## Waiting products -/

namespace AssemblyCache

variable {c : AssemblyCache} {id other : String}

theorem slot?_change (f : Slot → Slot) :
    (c.change id f).slot? other = if other = id then (c.slot? other).map f else c.slot? other := by
  unfold change slot?
  dsimp only
  induction c.slots with
  | nil => simp
  | cons entry rest ih =>
    rcases entry with ⟨key, slot⟩
    -- slots are changed wherever they stand, so the first under a key is too
    by_cases hkey : key = id
    · subst hkey
      rw [List.map_cons, if_pos rfl, lookup_cons_ite, lookup_cons_ite, ih]
      split <;> rfl
    · rw [List.map_cons, if_neg hkey, lookup_cons_ite, lookup_cons_ite, ih]
      split
      · rename_i hother
        rw [if_neg (hother ▸ hkey)]
      · rfl

theorem slot?_reserve :
    (c.reserve id).slot? other = if other = id then some (c.slotOrNew id) else c.slot? other := by
  unfold reserve slotOrNew
  cases hslot : c.slot? id with
  | some slot =>
    dsimp only [Option.getD_some]
    split
    · rename_i hother
      rw [hother, hslot]
    · rfl
  | none => exact lookup_cons_ite id other _ c.slots

theorem pending?_reserve : (c.reserve id).pending? other = c.pending? other := by
  unfold pending?
  rw [slot?_reserve]
  split
  · rename_i hother
    rw [hother, slotOrNew]
    cases c.slot? id <;> rfl
  · rfl

theorem pending?_store (p : Option Pending) :
    (c.store id p).pending? other = if other = id then p else c.pending? other := by
  unfold store pending?
  rw [slot?_change, slot?_reserve]
  split
  · rfl
  · rfl

theorem slot?_store (p : Option Pending) :
    (c.store id p).slot? other =
      if other = id then some { c.slotOrNew id with pending := p } else c.slot? other := by
  unfold store
  rw [slot?_change, slot?_reserve]
  split <;> rfl

theorem slotOrNew_store (p : Option Pending) :
    (c.store id p).slotOrNew id = { c.slotOrNew id with pending := p } := by
  rw [slotOrNew, slot?_store, if_pos rfl, Option.getD_some]

/-- A slot goes only if it is empty and nobody has a handle of it. -/
theorem slot?_release :
    (c.release id).slot? other =
      if other = id then (c.slot? id).filter fun s => s.pending.isSome || s.holders != 0
      else c.slot? other := by
  unfold release
  split
  · rename_i number hslot
    have hdropped : (AssemblyCache.mk (c.slots.filter (·.1 != id)) c.made).slot? other =
        if other = id then none else c.slot? other := lookup_filter_ne id c.slots other
    rw [hdropped, hslot]
    rfl
  · rename_i hkept
    split
    · rename_i hother
      rw [hother]
      cases hslot : c.slot? id with
      | none => rfl
      | some slot =>
        rcases slot with ⟨number, pending, holders⟩
        have hstays : (pending.isSome || holders != 0) = true := by
          rcases pending with _ | p
          · rcases holders with _ | n
            · exact absurd hslot (hkept number)
            · rfl
          · rfl
        rw [Option.filter_some, hstays, if_pos rfl]
    · rfl

theorem pending?_release : (c.release id).pending? other = c.pending? other := by
  unfold release
  -- a slot goes only when nothing waits in it
  split
  · rename_i number hslot
    unfold pending? slot?
    dsimp only
    rw [lookup_filter_ne]
    split
    · rename_i hother
      rw [hother]
      show none = (c.slot? id).bind Slot.pending
      rw [hslot]
      rfl
    · rfl
  · rfl

end AssemblyCache

/-! ## Order -/

namespace Document

theorem newerOrSame_iff {a b : Document} :
    newerOrSame a b = true ↔ b.received < a.received ∨ a.received = b.received ∧ b.id ≤ a.id := by
  simp [newerOrSame]

theorem pairwise_newestFirst (documents : List Document) :
    (newestFirst documents).Pairwise fun a b => newerOrSame a b = true := by
  refine List.pairwise_mergeSort ?_ ?_ documents
  · intro a b c hab hbc
    rw [newerOrSame_iff] at hab hbc ⊢
    rcases hab with hab | ⟨hab, hida⟩
    · rcases hbc with hbc | ⟨hbc, -⟩
      · exact .inl (Int.lt_trans hbc hab)
      · exact .inl (hbc ▸ hab)
    · rcases hbc with hbc | ⟨hbc, hidb⟩
      · exact .inl (hab ▸ hbc)
      · exact .inr ⟨hab.trans hbc, String.le_trans hidb hida⟩
  · intro a b
    rw [Bool.or_eq_true, newerOrSame_iff, newerOrSame_iff]
    rcases Int.lt_trichotomy a.received b.received with hlt | heq | hgt
    · exact .inr (.inl hlt)
    · rcases String.le_total b.id a.id with hle | hle
      · exact .inl (.inr ⟨heq, hle⟩)
      · exact .inr (.inr ⟨heq.symm, hle⟩)
    · exact .inl (.inl hgt)

/-- Of documents with different ids there is one order only. -/
theorem newestFirst_eq_of_perm {xs ys : List Document} (h : xs.Perm ys)
    (hids : (xs.map Document.id).Nodup) : newestFirst xs = newestFirst ys := by
  have hxs : (newestFirst xs).Perm xs := List.mergeSort_perm xs newerOrSame
  have hys : (newestFirst ys).Perm ys := List.mergeSort_perm ys newerOrSame
  refine List.Perm.eq_of_pairwise ?_ (pairwise_newestFirst xs)
    (pairwise_newestFirst ys) (hxs.trans (h.trans hys.symm))
  intro a b ha hb hab hba
  rw [newerOrSame_iff] at hab hba
  -- each at least as new as the other: the ids decide, and they are the same
  have hid : a.id = b.id := by
    rcases hab with hab | ⟨hsame, hle⟩
    · rcases hba with hba | ⟨hba, -⟩ <;> omega
    · rcases hba with hba | ⟨-, hge⟩
      · omega
      · exact String.le_antisymm hge hle
  exact List.inj_on_of_nodup_map hids (hxs.mem_iff.1 ha) (h.mem_iff.2 (hys.mem_iff.1 hb)) hid

end Document

/-! ## Archives -/

namespace Archive

/-- Both hold the same documents and have the same products waiting. -/
def Same (a b : Archive) : Prop :=
  a.documents = b.documents ∧ ∀ id, a.cache.pending? id = b.cache.pending? id

/-- Both hold the same documents and the same slots with the same in them. -/
def Alike (a b : Archive) : Prop :=
  a.documents = b.documents ∧ ∀ id, a.cache.slot? id = b.cache.slot? id

variable {a b : Archive} {id : String} {p : Pending}

theorem Alike.refl (a : Archive) : Alike a a := ⟨rfl, fun _ => rfl⟩

theorem Alike.trans {c : Archive} (hab : Alike a b) (hbc : Alike b c) : Alike a c :=
  ⟨hab.1.trans hbc.1, fun id => (hab.2 id).trans (hbc.2 id)⟩

theorem Alike.same (h : Alike a b) : Same a b :=
  ⟨h.1, fun id => congrArg (·.bind Slot.pending) (h.2 id)⟩

theorem same_reserve (a : Archive) (id : String) :
    Same { a with cache := a.cache.reserve id } a := ⟨rfl, fun _ => AssemblyCache.pending?_reserve⟩

theorem same_release (a : Archive) (id : String) :
    Same { a with cache := a.cache.release id } a := ⟨rfl, fun _ => AssemblyCache.pending?_release⟩

/-- Nothing is withdrawn where there is no document. -/
theorem withdraw_of_document? (hnone : a.document? id = none) :
    (a.withdraw id).documents = a.documents := by
  apply List.filter_eq_self.2
  intro d hd
  simpa using List.find?_eq_none.1 hnone d hd

theorem nodup_ids_withdraw (h : (a.documents.map Document.id).Nodup) (id : String) :
    ((a.withdraw id).documents.map Document.id).Nodup := h.sublist (List.filter_sublist.map _)

/-- The former document of a product was taken out before the new one was put in. -/
theorem nodup_ids_index (h : (a.documents.map Document.id).Nodup) (d : Document) :
    ((a.index d).documents.map Document.id).Nodup := by
  have hdocuments : (a.index d).documents = (a.withdraw d.id).documents ++ [d] := rfl
  rw [hdocuments, List.map_append, List.nodup_append]
  refine ⟨nodup_ids_withdraw h d.id, by simp, ?_⟩
  intro i hi j hj hsame
  rcases List.mem_map.1 hi with ⟨d', hd', rfl⟩
  have hne : d'.id ≠ d.id := by simpa using (List.mem_filter.1 hd').2
  exact hne (hsame.trans (by simpa using hj))

theorem nodup_ids_settle (h : (a.documents.map Document.id).Nodup) (id : String) (p : Pending) :
    ((a.settle id p).documents.map Document.id).Nodup := by
  unfold settle
  split
  · exact nodup_ids_index h _
  · split
    · exact nodup_ids_withdraw h id
    · exact h

/-- The documents after a product was settled: those of other products, and its own if it is
complete. -/
theorem documents_settle (hunindexed : p.indexed = false → a.document? id = none) :
    (a.settle id p).documents = (a.withdraw id).documents ++
      if p.isComplete then [.ofProduct id p.product (p.metadata.getD .empty)] else [] := by
  unfold settle
  split
  · rfl
  · rw [List.append_nil]
    split
    · rfl
    · rename_i hindexed
      exact (withdraw_of_document? (hunindexed (by simpa using hindexed))).symm

theorem mem_documents_settle (hunindexed : p.indexed = false → a.document? id = none)
    {d : Document} :
    d ∈ (a.settle id p).documents ↔ d ∈ a.documents ∧ d.id ≠ id ∨
      p.isComplete = true ∧ d = .ofProduct id p.product (p.metadata.getD .empty) := by
  rw [documents_settle hunindexed, List.mem_append, withdraw, List.mem_filter, bne_iff_ne]
  cases p.isComplete <;> simp

/-- A settled product waits exactly if it is incomplete, and is not indexed then. -/
theorem pending?_settle {other : String} :
    (a.settle id p).cache.pending? other =
      if other = id then (if p.isComplete then none else some { p with indexed := false })
      else a.cache.pending? other := by
  unfold settle
  split
  · exact AssemblyCache.pending?_store none
  · split
    · exact AssemblyCache.pending?_store (some { p with indexed := false })
    · rename_i hindexed
      have hsame : { p with indexed := false } = p := by
        cases p
        simpa using hindexed
      rw [hsame]
      exact AssemblyCache.pending?_store (some p)

/-! ### Storing -/

/-- Putting what is in the slot changes nothing. -/
theorem alike_store_of_slot? {slot : Slot} (hslot : a.cache.slot? id = some slot) :
    Alike (a.store id slot.pending) a := by
  refine ⟨rfl, ?_⟩
  intro other
  show (a.cache.store id slot.pending).slot? other = a.cache.slot? other
  rw [AssemblyCache.slot?_store]
  split
  · rename_i hother
    rw [AssemblyCache.slotOrNew, hother, hslot]
    rfl
  · rfl

/-- Of what is put into a slot one after the other the last stays. -/
theorem alike_store_store (a : Archive) (id : String) (p p' : Option Pending) :
    Alike ((a.store id p).store id p') (a.store id p') := by
  refine ⟨rfl, ?_⟩
  intro other
  show ((a.cache.store id p).store id p').slot? other = (a.cache.store id p').slot? other
  rw [AssemblyCache.slot?_store, AssemblyCache.slot?_store, AssemblyCache.slot?_store,
    AssemblyCache.slotOrNew_store]
  by_cases hother : other = id
  · rw [if_pos hother, if_pos hother]
  · rw [if_neg hother, if_neg hother, if_neg hother]

/-- Settling does not ask what was in the slot. -/
theorem alike_settle_store (a : Archive) (id : String) (p' : Option Pending) :
    Alike ((a.store id p').settle id p) (a.settle id p) := by
  unfold settle
  split
  · exact alike_store_store (a.index _) id p' none
  · split
    · exact alike_store_store (a.withdraw id) id p' _
    · exact alike_store_store a id p' (some p)

end Archive

/-! ## Running writes -/

namespace Store

variable {s : Store} {a : Archive} {id : String} {q : Pending}

/-- Around an action a slot is made and released without a trace. -/
theorem run_withSlot {α : Type} (action : Action Archive α) (a : Archive) (id : String) :
    ∃ b, Archive.Same b a ∧ (b.cache.slot? id).isSome = true ∧
      ((withSlot id action).run a).1 = (action.run b).1 ∧
      Archive.Same ((withSlot id action).run a).2 (action.run b).2 := by
  refine ⟨{ a with cache := a.cache.reserve id }, Archive.same_reserve a id, ?_, rfl,
    Archive.same_release _ id⟩
  show ((a.cache.reserve id).slot? id).isSome = true
  rw [AssemblyCache.slot?_reserve, if_pos rfl]
  rfl

/-- How an action ends in a slot, the write around it ends, as far as one can tell. -/
theorem ends_withSlot {α : Type} {good bad : Archive → Prop} {action : Action Archive α}
    (hgood : ∀ b c, Archive.Same c b → good b → good c)
    (hbad : ∀ b c, Archive.Same c b → bad b → bad c)
    (haction : ∀ b, Archive.Same b a → (b.cache.slot? id).isSome = true →
      Action.Ends action b good bad) :
    Action.Ends (withSlot id action) a good bad := by
  rcases run_withSlot action a id with ⟨b, hsame, hslot, hanswer, hafter⟩
  have hends := haction b hsame hslot
  unfold Action.Ends at hends ⊢
  rcases hrun : action.run b with ⟨answer, c⟩
  rcases hwrite : (withSlot id action).run a with ⟨answer', c'⟩
  rw [hrun] at hends hanswer hafter
  rw [hwrite] at hanswer hafter
  obtain rfl : answer' = answer := hanswer
  cases answer' with
  | ok _ => exact hgood c c' hafter hends
  | error e => exact hbad c c' hafter hends

theorem run_withSlot_modify (change : Archive → Archive) (a : Archive) (id : String) :
    ∃ b, Archive.Same b a ∧ ∃ c, (withSlot id (modify change)).run a = (.ok (), c) ∧
      Archive.Same c (change b) := by
  rcases run_withSlot (modify change) a id with ⟨b, hsame, -, hanswer, hafter⟩
  exact ⟨b, hsame, ((withSlot id (modify change)).run a).2, Prod.ext hanswer rfl, hafter⟩

/-! ### Changes in a slot -/

theorem silent_requireDocument (id : String) : Action.Silent (requireDocument id) :=
  Action.silent_reading _

theorem silent_loadPending (id : String) : Action.Silent (s.loadPending id) :=
  (silent_requireDocument id).bind fun _ => (Action.silent_ofExcept _).bind fun _ =>
    Action.silent_pure _

/-- Only a product with a document of a known type is rebuilt. -/
theorem document?_of_loadPending (h : ((s.loadPending id).run a).1 = .ok q) :
    ∃ d t, a.document? id = some d ∧ s.schema.typeById d.typeId = .ok t ∧
      q = ⟨d.product t, some d.metadata, true⟩ := by
  rw [loadPending, Action.run_bind, requireDocument, Action.run_reading] at h
  cases hfound : a.document? id with
  | none => simp [hfound] at h
  | some d =>
    simp only [hfound] at h
    rw [Action.run_bind, Action.run_ofExcept, productOf] at h
    cases htype : s.schema.typeById d.typeId with
    | error e => simp [htype, bind, Except.bind] at h
    | ok t =>
      simp only [htype, bind, Except.bind, pure, Except.pure] at h
      exact ⟨d, t, rfl, htype, (Except.ok.inj h).symm⟩

/-- What waits for a product, or the product rebuilt from its document. -/
def currentPending (s : Store) (id : String) : Action Archive Pending := do
  match (← get).cache.pending? id with
  | some pending => return pending
  | none => s.loadPending id

theorem silent_currentPending (id : String) : Action.Silent (s.currentPending id) := by
  apply Action.silent_get.bind
  intro a
  cases a.cache.pending? id with
  | some pending => exact Action.silent_pure _
  | none => exact silent_loadPending id

theorem run_currentPending_of_waiting (hwaiting : a.cache.pending? id = some q) :
    (s.currentPending id).run a = (.ok q, a) := by
  rw [currentPending, Action.run_bind_ok (Action.run_get a), hwaiting]
  rfl

theorem run_currentPending_of_none (hnone : a.cache.pending? id = none) :
    (s.currentPending id).run a = (s.loadPending id).run a := by
  rw [currentPending, Action.run_bind_ok (Action.run_get a), hnone]

theorem run_onPending (hwaiting : a.cache.pending? id = some q) (change : Action Pending Unit) :
    (onPending id change).run a = ((change.run q).1, a.store id (some (change.run q).2)) := by
  have hrun : (onPending id change).run a =
      match a.cache.pending? id with
      | some pending => ((change.run pending).1, a.store id (some (change.run pending).2))
      | none => (.ok (), a) := rfl
  rw [hrun, hwaiting]

theorem run_onPending_of_none (hnone : a.cache.pending? id = none) (change : Action Pending Unit) :
    (onPending id change).run a = (.ok (), a) := by
  have hrun : (onPending id change).run a =
      match a.cache.pending? id with
      | some pending => ((change.run pending).1, a.store id (some (change.run pending).2))
      | none => (.ok (), a) := rfl
  rw [hrun, hnone]

theorem run_flush (hwaiting : a.cache.pending? id = some q) :
    (flush id).run a = (.ok (), a.settle id q) := by
  rw [flush, Action.run_modify, hwaiting]

theorem pending?_store_self (p : Option Pending) : (a.store id p).cache.pending? id = p := by
  show (a.cache.store id p).pending? id = p
  rw [AssemblyCache.pending?_store, if_pos rfl]

/-- A change of what is in the slot is settled; after one that fails the slot is emptied again if
the product was loaded for it. -/
theorem run_changeInSlot {loaded : Bool} {b : Archive} (hload : (s.load id).run a = (.ok loaded, b))
    (hwaiting : b.cache.pending? id = some q) (change : Action Pending Unit) :
    (s.changeInSlot id change).run a =
      match change.run q with
      | (.ok _, q') => (.ok (), (b.store id (some q')).settle id q')
      | (.error e, q') => (.error e,
          if loaded then (b.store id (some q')).store id none else b.store id (some q')) := by
  have hchange := run_onPending hwaiting change
  rw [changeInSlot, Action.run_bind_ok hload]
  rcases hrun : change.run q with ⟨answer, q'⟩
  rw [hrun] at hchange
  cases answer with
  | ok x =>
    rw [Action.run_bind_ok (Action.run_tryCatch_ok hchange)]
    exact run_flush (pending?_store_self _)
  | error e =>
    cases loaded with
    | true => exact Action.run_bind_error ((Action.run_tryCatch_error hchange).trans rfl)
    | false => exact Action.run_bind_error ((Action.run_tryCatch_error hchange).trans rfl)

theorem run_load_of_waiting (hwaiting : a.cache.pending? id = some q) :
    (s.load id).run a = (.ok false, a) := by
  have hcontains : a.cache.contains id = true := by
    rw [AssemblyCache.contains, hwaiting]
    rfl
  rw [load, Action.run_bind_ok (Action.run_get a), hcontains]
  rfl

theorem run_load_of_none (hnone : a.cache.pending? id = none) :
    (s.load id).run a =
      match (s.loadPending id).run a with
      | (.ok q, b) => (.ok true, b.store id (some q))
      | (.error e, b) => (.error e, b) := by
  have hcontains : a.cache.contains id = false := by
    rw [AssemblyCache.contains, hnone]
    rfl
  rw [load, Action.run_bind_ok (Action.run_get a), hcontains]
  show Action.run (do
    let pending ← s.loadPending id
    modify fun a => a.store id (some pending)
    return true) a = _
  rw [Action.run_bind]
  rcases (s.loadPending id).run a with ⟨answer, b⟩
  cases answer <;> rfl

/-- A product that is neither waiting nor indexed cannot be changed. -/
theorem run_changeInSlot_of_error {e : CatalogError}
    (h : (s.currentPending id).run a = (.error e, a)) (change : Action Pending Unit) :
    (s.changeInSlot id change).run a = (.error e, a) := by
  cases hpending : a.cache.pending? id with
  | some q =>
    rw [run_currentPending_of_waiting hpending] at h
    cases h
  | none =>
    rw [run_currentPending_of_none hpending] at h
    have hload := run_load_of_none (s := s) hpending
    rw [h] at hload
    exact Action.run_bind_error hload

/-- A change that succeeds is settled. -/
theorem run_changeInSlot_ok {change : Action Pending Unit} {q' : Pending}
    (hcurrent : (s.currentPending id).run a = (.ok q, a)) (hchange : change.run q = (.ok (), q')) :
    ∃ b, (s.changeInSlot id change).run a = (.ok (), b) ∧ Archive.Alike b (a.settle id q') := by
  cases hpending : a.cache.pending? id with
  | some waiting =>
    rw [run_currentPending_of_waiting hpending] at hcurrent
    cases hcurrent
    have hrun := run_changeInSlot (run_load_of_waiting (s := s) hpending) hpending change
    rw [hchange] at hrun
    exact ⟨_, hrun, Archive.alike_settle_store a id (some q')⟩
  | none =>
    rw [run_currentPending_of_none hpending] at hcurrent
    have hload := run_load_of_none (s := s) hpending
    rw [hcurrent] at hload
    have hrun := run_changeInSlot hload (pending?_store_self _) change
    rw [hchange] at hrun
    exact ⟨_, hrun, (Archive.alike_settle_store _ id (some q')).trans
      (Archive.alike_settle_store a id (some q))⟩

/-- A change that fails without doing anything leaves no trace. -/
theorem run_changeInSlot_fails {change : Action Pending Unit} {e : CatalogError}
    (hslot : (a.cache.slot? id).isSome = true)
    (hcurrent : (s.currentPending id).run a = (.ok q, a)) (hchange : change.run q = (.error e, q)) :
    ∃ b, (s.changeInSlot id change).run a = (.error e, b) ∧ Archive.Alike b a := by
  obtain ⟨slot, hslot⟩ := Option.isSome_iff_exists.1 hslot
  have hpending : a.cache.pending? id = slot.pending := by
    rw [AssemblyCache.pending?, hslot]
    rfl
  cases hwaiting : slot.pending with
  | some waiting =>
    rw [hwaiting] at hpending
    rw [run_currentPending_of_waiting hpending] at hcurrent
    cases hcurrent
    have hrun := run_changeInSlot (run_load_of_waiting (s := s) hpending) hpending change
    rw [hchange] at hrun
    exact ⟨_, hrun, hwaiting ▸ Archive.alike_store_of_slot? hslot⟩
  | none =>
    rw [hwaiting] at hpending
    rw [run_currentPending_of_none hpending] at hcurrent
    have hload := run_load_of_none (s := s) hpending
    rw [hcurrent] at hload
    have hrun := run_changeInSlot hload (pending?_store_self _) change
    rw [hchange] at hrun
    refine ⟨_, hrun, (Archive.alike_store_store _ id (some q) none).trans
      ((Archive.alike_store_store a id (some q) none).trans ?_)⟩
    exact hwaiting ▸ Archive.alike_store_of_slot? hslot

/-- A change in a slot that does nothing when it fails is settled, or there is no trace of it. -/
theorem ends_changeInSlot {good bad : Archive → Prop} {change : Action Pending Unit}
    (hatomic : Action.Atomic change) (hslot : (a.cache.slot? id).isSome = true)
    (hgood : ∀ q q' b, (s.currentPending id).run a = (.ok q, a) → change.run q = (.ok (), q') →
      Archive.Alike b (a.settle id q') → good b)
    (hbad : ∀ b, Archive.Alike b a → bad b) :
    Action.Ends (s.changeInSlot id change) a good bad := by
  have hstate := silent_currentPending (s := s) id a
  rcases hcurrent : (s.currentPending id).run a with ⟨answer, a'⟩
  rw [hcurrent] at hstate
  obtain rfl : a' = a := hstate
  cases answer with
  | error e =>
    exact Action.ends_of_error (run_changeInSlot_of_error hcurrent change) (hbad a' (.refl a'))
  | ok q =>
    rcases hchange : change.run q with ⟨answer, q'⟩
    cases answer with
    | error e =>
      obtain rfl : q' = q := hatomic _ _ _ hchange
      rcases run_changeInSlot_fails hslot hcurrent hchange with ⟨b, hrun, halike⟩
      exact Action.ends_of_error hrun (hbad b halike)
    | ok _ =>
      rcases run_changeInSlot_ok hcurrent hchange with ⟨b, hrun, halike⟩
      exact Action.ends_of_ok hrun (hgood q q' b hcurrent hchange halike)

theorem run_mergeDeclared (s : Store) (m : Metadata) (q : Pending) :
    (s.mergeDeclared m).run q =
      match s.schema.declaredMetadata q.product.productType m with
      | .ok declared =>
        (.ok (), { q with metadata := some ((q.metadata.getD .empty).merge declared) })
      | .error e => (.error e, q) := by
  rw [mergeDeclared, Action.run_bind_ok (Action.run_get q), Action.run_bind, Action.run_ofExcept]
  cases s.schema.declaredMetadata q.product.productType m <;> rfl

theorem atomic_mergeDeclared (s : Store) (m : Metadata) : Action.Atomic (s.mergeDeclared m) :=
  Action.silent_get.bind_atomic fun _ => (Action.silent_ofExcept _).bind_atomic fun _ =>
    Action.atomic_set _

/-! ### Erasing -/

theorem run_eraseInSlot_of_none (hpending : a.cache.pending? id = none)
    (hdocument : a.document? id = none) :
    (eraseInSlot id).run a = (.error (.notFound "Product" id), a) := by
  have hrequired : (requireDocument id).run a = (.error (.notFound "Product" id), a) := by
    rw [requireDocument, Action.run_reading, hdocument]
  rw [eraseInSlot, Action.run_bind_ok (Action.run_get a), hpending]
  exact Action.run_bind_error (Action.run_discard_error hrequired)

/-- Of a product that is waiting or indexed nothing is left. -/
theorem run_eraseInSlot_ok (hthere : a.cache.pending? id = none → a.document? id ≠ none)
    (hunindexed : ∀ q, a.cache.pending? id = some q → q.indexed = false → a.document? id = none) :
    ∃ b, (eraseInSlot id).run a = (.ok (), b) ∧ b.documents = (a.withdraw id).documents ∧
      ∀ other, b.cache.pending? other = if other = id then none else a.cache.pending? other := by
  rw [eraseInSlot, Action.run_bind_ok (Action.run_get a)]
  cases hpending : a.cache.pending? id with
  | some q =>
    refine ⟨_, Action.run_set a _, ?_, fun other => ?_⟩
    · cases hindexed : q.indexed with
      | true => rfl
      | false => exact (Archive.withdraw_of_document? (hunindexed q hpending hindexed)).symm
    · cases q.indexed <;> exact AssemblyCache.pending?_store none
  | none =>
    obtain ⟨d, hd⟩ := Option.ne_none_iff_exists'.1 (hthere hpending)
    have hrequired : (requireDocument id).run a = (.ok d, a) := by
      rw [requireDocument, Action.run_reading, hd]
    refine ⟨a.withdraw id, Action.run_bind_ok (Action.run_discard_ok hrequired), rfl, ?_⟩
    intro other
    split
    · rename_i hother
      exact hother ▸ hpending
    · rfl

end Store

end ArchiveCatalog.Inverted
