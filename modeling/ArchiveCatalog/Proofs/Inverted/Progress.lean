import ArchiveCatalog.Proofs.Inverted.Slots
import Mathlib.Logic.Function.Basic

namespace ArchiveCatalog.Inverted

/-! # Slots and documents

How far a product is on the way to completion is told by the writes that succeeded: they give an
account of its references and of whether it has metadata. The archive follows the account,
whatever calls failed meanwhile: a product that is left incomplete waits in a slot, one that
is left complete has a document, and none has both.
-/

/-! ## Accounts -/

/-- How far a product is on the way to completion. -/
structure Progress where
  references : List FileReference
  /-- It was given metadata. -/
  described : Bool
  deriving DecidableEq

namespace Progress

/-- It has metadata, and its files are all in the archive. -/
def isComplete (g : Progress) : Bool :=
  g.described && !g.references.isEmpty && g.references.all FileReference.isMaterialized

/-- The progress of a product that waits or is worked on. -/
def ofPending (q : Pending) : Progress := ⟨q.product.references, q.metadata.isSome⟩

theorem isComplete_ofPending (q : Pending) : (ofPending q).isComplete = q.isComplete :=
  Bool.and_assoc _ _ _

end Progress

/-- The progress of the products that are registered and not removed. -/
abbrev Account := String → Option Progress

namespace Account

/-- No products. -/
def empty : Account := fun _ => none

/-- Changes the progress of a product, if it has any. -/
def change (acc : Account) (p : Product) (f : Progress → Option Progress) : Account :=
  match p.id with
  | some id => Function.update acc id ((acc id).bind f)
  | none => acc

/-- Notes an operation that succeeded. -/
def note (acc : Account) : Operation → Account
  | .add r p => Function.update acc r.freshId (some ⟨p.references, false⟩)
  | .modify p | .addReferences p => acc.change p fun g => some { g with references := p.references }
  | .addMetadata _ p => acc.change p fun g => some { g with described := true }
  | .remove p => acc.change p fun _ => none
  | _ => acc

theorem change_of_requireId {acc : Account} {p : Product} {id : String}
    (h : p.requireId = .ok id) (f : Progress → Option Progress) :
    acc.change p f = Function.update acc id ((acc id).bind f) := by
  rw [change, Product.id_of_requireId h]

theorem change_some (acc : Account) (p : Product) : acc.change p some = acc := by
  unfold change
  cases p.id with
  | none => rfl
  | some id =>
    dsimp only
    rw [Option.bind_fun_some, Function.update_eq_self]

end Account

/-! ## Archives that follow an account -/

namespace Store

/-- The archive follows the account, in which no id that is yet to be given has any progress. -/
structure Follows (later : List String) (acc : Account) (a : Archive) : Prop where
  ids : (a.documents.map Document.id).Nodup
  waiting : ∀ id q, a.cache.pending? id = some q →
    q.indexed = false ∧ q.isComplete = false ∧ acc id = some (.ofPending q)
  indexed : ∀ d ∈ a.documents,
    acc d.id = some ⟨d.references, true⟩ ∧ Progress.isComplete ⟨d.references, true⟩ = true
  known : ∀ id g, acc id = some g →
    id ∉ later ∧ (a.cache.pending? id = none → ∃ d ∈ a.documents, d.id = id)

open ArchiveCatalog.Action (Ends)

variable {s : Store} {later : List String} {acc : Account} {a b : Archive} {id : String}
  {p : Product} {q : Pending}

theorem follows_empty : Follows later .empty .empty := by
  refine ⟨List.nodup_nil, ?_, fun d hd => absurd hd List.not_mem_nil, ?_⟩
  · intro id q h
    cases h
  · intro id g h
    cases h

theorem Follows.congr (h : Follows later acc a) (hsame : Archive.Same b a) :
    Follows later acc b := by
  refine ⟨hsame.1 ▸ h.ids, ?_, hsame.1 ▸ h.indexed, ?_⟩
  · intro id q hq
    exact h.waiting id q (hsame.2 id ▸ hq)
  · intro id g hg
    rw [hsame.1, hsame.2 id]
    exact h.known id g hg

/-- There is no document under an id that is yet to be given. -/
theorem Follows.document?_of_later (h : Follows later acc a) (hlater : id ∈ later) :
    a.document? id = none := by
  refine List.find?_eq_none.2 ?_
  intro d hd hid
  have hnew := (h.known d.id _ (h.indexed d hd).1).1
  rw [beq_iff_eq.1 hid] at hnew
  exact hnew hlater

/-- What waits is not indexed. -/
theorem Follows.document?_of_waiting (h : Follows later acc a)
    (hwaiting : a.cache.pending? id = some q) : a.document? id = none := by
  refine List.find?_eq_none.2 ?_
  intro d hd hid
  rcases h.waiting id q hwaiting with ⟨-, hincomplete, hpending⟩
  rcases h.indexed d hd with ⟨hdocument, hcomplete⟩
  -- of one product the account cannot say both
  rw [beq_iff_eq.1 hid, hpending] at hdocument
  rw [← Option.some.inj hdocument, Progress.isComplete_ofPending, hincomplete] at hcomplete
  cases hcomplete

/-- What a write works on is as far as the account says, and is not indexed unless it says so. -/
theorem Follows.current (h : Follows later acc a)
    (hcurrent : ((s.currentPending id).run a).1 = .ok q) :
    acc id = some (.ofPending q) ∧ (q.indexed = false → a.document? id = none) := by
  cases hwaiting : a.cache.pending? id with
  | some _ =>
    rw [run_currentPending_of_waiting hwaiting] at hcurrent
    cases hcurrent
    exact ⟨(h.waiting id q hwaiting).2.2, fun _ => h.document?_of_waiting hwaiting⟩
  | none =>
    rw [run_currentPending_of_none hwaiting] at hcurrent
    rcases document?_of_loadPending hcurrent with ⟨d, t, hfound, -, rfl⟩
    have hid : d.id = id := by simpa using List.find?_some hfound
    refine ⟨?_, fun hunindexed => by cases hunindexed⟩
    exact hid ▸ (h.indexed d (List.mem_of_find?_eq_some hfound)).1

/-- After a product was settled, the account says of it how far it is. -/
theorem Follows.settle (h : Follows later acc a) (hlater : id ∉ later)
    (hunindexed : q.indexed = false → a.document? id = none) :
    Follows later (Function.update acc id (some (.ofPending q))) (a.settle id q) := by
  refine ⟨Archive.nodup_ids_settle h.ids id q, ?_, ?_, ?_⟩
  · intro other waiting hwaiting
    rw [Archive.pending?_settle] at hwaiting
    by_cases hother : other = id
    · subst hother
      rw [if_pos rfl] at hwaiting
      rcases Option.ite_none_left_eq_some.1 hwaiting with ⟨hincomplete, hq⟩
      cases hq
      rw [Function.update_self]
      exact ⟨rfl, eq_false_of_ne_true hincomplete, rfl⟩
    · rw [if_neg hother] at hwaiting
      rw [Function.update_of_ne hother]
      exact h.waiting other waiting hwaiting
  · intro d hd
    rcases (Archive.mem_documents_settle hunindexed).1 hd with ⟨hbefore, hother⟩ | ⟨hcomplete, rfl⟩
    · rw [Function.update_of_ne hother]
      exact h.indexed d hbefore
    · have hsome : q.metadata.isSome = true := (Bool.and_eq_true_iff.1 hcomplete).1
      have hprogress : Progress.ofPending q = ⟨q.product.references, true⟩ :=
        congrArg (Progress.mk _) hsome
      rw [← Progress.isComplete_ofPending, hprogress] at hcomplete
      have hid : (Document.ofProduct id q.product (q.metadata.getD .empty)).id = id := rfl
      rw [hid, Function.update_self, hprogress]
      exact ⟨rfl, hcomplete⟩
  · intro other g hg
    rw [Archive.pending?_settle]
    by_cases hother : other = id
    · -- what is not settled as waiting is settled as a document
      refine ⟨hother ▸ hlater, fun hnone => ?_⟩
      rw [if_pos hother] at hnone
      have hcomplete : q.isComplete = true := by
        by_contra hincomplete
        rw [if_neg hincomplete] at hnone
        cases hnone
      exact ⟨_, (Archive.mem_documents_settle hunindexed).2 (.inr ⟨hcomplete, rfl⟩), hother.symm⟩
    · rw [Function.update_of_ne hother] at hg
      rw [if_neg hother]
      rcases h.known other g hg with ⟨hnew, hdocument⟩
      refine ⟨hnew, fun hnone => ?_⟩
      rcases hdocument hnone with ⟨d, hd, rfl⟩
      exact ⟨d, (Archive.mem_documents_settle hunindexed).2 (.inl ⟨hd, hother⟩), rfl⟩

/-- Without a product the account has no progress of it. -/
theorem Follows.erase (h : Follows later acc a)
    (hdocuments : b.documents = (a.withdraw id).documents)
    (hpending : ∀ other, b.cache.pending? other =
      if other = id then none else a.cache.pending? other) :
    Follows later (Function.update acc id none) b := by
  refine ⟨hdocuments ▸ Archive.nodup_ids_withdraw h.ids id, ?_, ?_, ?_⟩
  · intro other q hq
    rw [hpending] at hq
    rw [Function.update_apply]
    split at hq
    · cases hq
    · rename_i hother
      rw [if_neg hother]
      exact h.waiting other q hq
  · intro d hd
    rw [hdocuments] at hd
    rcases List.mem_filter.1 hd with ⟨hd, hother⟩
    rw [Function.update_apply, if_neg (by simpa using hother)]
    exact h.indexed d hd
  · intro other g hg
    rw [Function.update_apply] at hg
    split at hg
    · cases hg
    · rename_i hother
      rw [hpending, if_neg hother, hdocuments]
      rcases h.known other g hg with ⟨hnew, hdocument⟩
      refine ⟨hnew, ?_⟩
      intro hnone
      rcases hdocument hnone with ⟨d, hd, rfl⟩
      exact ⟨d, List.mem_filter.2 ⟨hd, by simpa using hother⟩, rfl⟩

/-! ## Writes -/

variable {acc' : Account}

/-- How an action in a slot follows the account, the write around it does. -/
theorem Follows.withSlot {action : Action Archive Unit} (h : Follows later acc a)
    (haction : ∀ b, Follows later acc b → (b.cache.slot? id).isSome = true →
      Ends action b (Follows later acc') (Follows later acc)) :
    Ends (withSlot id action) a (Follows later acc') (Follows later acc) :=
  ends_withSlot (fun _ _ hsame hb => hb.congr hsame) (fun _ _ hsame hb => hb.congr hsame)
    fun b hsame => haction b (h.congr hsame)

/-- A change that succeeds is noted if it does to the progress what the note says. -/
theorem Follows.mutate (h : Follows later acc a) {change : Action Pending Unit}
    {f : Progress → Progress} (hatomic : Action.Atomic change)
    (hchange : ∀ q q', change.run q = (.ok (), q') →
      q'.indexed = q.indexed ∧ Progress.ofPending q' = f (.ofPending q)) :
    Ends (s.mutate p change) a (Follows later (acc.change p fun g => some (f g)))
      (Follows later acc) := by
  refine Action.ends_ofExcept_bind h fun id hid => h.withSlot fun b hb hslot => ?_
  refine ends_changeInSlot hatomic hslot ?_ fun c halike => hb.congr halike.same
  intro q q' c hcurrent hrun halike
  rcases hb.current (congrArg Prod.fst hcurrent) with ⟨hprogress, hunindexed⟩
  rcases hchange q q' hrun with ⟨hindexed, hafter⟩
  have hsettled := hb.settle (hb.known id _ hprogress).1 (hindexed ▸ hunindexed)
  rw [Account.change_of_requireId hid, hprogress, Option.bind_some, ← hafter]
  exact hsettled.congr halike.same

/-- A new product waits for its metadata. -/
theorem Follows.add {r : Registration} (h : Follows (r.freshId :: later) acc a)
    (hdistinct : r.freshId ∉ later) :
    Ends (s.add r p) a
      (Follows later (Function.update acc r.freshId (some ⟨p.references, false⟩)))
      (Follows later acc) := by
  have hlater : Follows later acc a := ⟨h.ids, h.waiting, h.indexed, fun id g hg =>
    ⟨fun hmem => (h.known id g hg).1 (List.mem_cons_of_mem _ hmem), (h.known id g hg).2⟩⟩
  refine Action.ends_ofExcept_bind hlater fun _ _ => Action.ends_ofExcept_bind hlater fun t _ =>
    Action.Ends.answer ?_ _
  -- the id was yet to be given, so there is no document under it
  refine ends_withSlot (fun _ _ hsame hb => hb.congr hsame) (fun _ _ hsame hb => hb.congr hsame)
    fun b hsame _ => Action.ends_of_ok (Action.run_modify _ b) ?_
  exact (hlater.congr hsame).settle (q := .ofProduct { p with
    id := some r.freshId, productType := t, received := Instant.ofMillis? r.millis })
    hdistinct fun _ => (h.congr hsame).document?_of_later List.mem_cons_self

theorem Follows.remove (h : Follows later acc a) :
    Ends (remove p) a (Follows later (acc.change p fun _ => none)) (Follows later acc) := by
  refine Action.ends_ofExcept_bind h fun id hid => h.withSlot fun b hb _ => ?_
  rw [Account.change_of_requireId hid, Option.bind_fun_none]
  by_cases hgone : b.cache.pending? id = none ∧ b.document? id = none
  · exact Action.ends_of_error (run_eraseInSlot_of_none hgone.1 hgone.2) hb
  · have hthere : b.cache.pending? id = none → b.document? id ≠ none := fun hnone hdocument =>
      hgone ⟨hnone, hdocument⟩
    rcases run_eraseInSlot_ok hthere fun q hq _ => hb.document?_of_waiting hq with
      ⟨c, hrun, hdocuments, hpending⟩
    exact Action.ends_of_ok hrun (hb.erase hdocuments hpending)

/-- Of a change of the product only the references are noted. -/
theorem Follows.editProduct (h : Follows later acc a) (change : Product → Product)
    (f : List FileReference → List FileReference)
    (hchange : ∀ q, (change q).references = f q.references) :
    Ends (s.mutate p <| modify fun pending => { pending with product := change pending.product }) a
      (Follows later (acc.change p fun g => some { g with references := f g.references }))
      (Follows later acc) := by
  refine h.mutate (f := fun g => { g with references := f g.references })
    (Action.atomic_modify _) ?_
  intro q q' hrun
  cases hrun
  exact ⟨rfl, congrArg (Progress.mk · _) (hchange q.product)⟩

theorem Follows.setStatus (h : Follows later acc a) :
    Ends (s.setStatus p) a (Follows later acc) (Follows later acc) := by
  have hends := h.editProduct (s := s) (p := p) (fun old => { old with status := p.status }) id
    fun _ => rfl
  have hsame : (acc.change p fun g => some { g with references := id g.references }) = acc :=
    acc.change_some p
  rwa [hsame] at hends

theorem Follows.addMetadata (h : Follows later acc a) (m : Metadata) :
    Ends (s.addMetadata m p) a
      (Follows later (acc.change p fun g => some { g with described := true }))
      (Follows later acc) := by
  refine h.mutate (f := fun g => { g with described := true }) (s.atomic_mergeDeclared m) ?_
  intro q q' hrun
  rw [run_mergeDeclared] at hrun
  cases hdeclared : s.schema.declaredMetadata q.product.productType m with
  | error e =>
    rw [hdeclared] at hrun
    cases hrun
  | ok declared =>
    rw [hdeclared] at hrun
    cases hrun
    exact ⟨rfl, rfl⟩

theorem Follows.removeMetadata (h : Follows later acc a) (m : Metadata) :
    Ends (s.removeMetadata m p) a (Follows later acc) (Follows later acc) := by
  have hends := h.mutate (s := s) (p := p) (f := id) (Action.atomic_modify fun q : Pending =>
    { q with metadata := q.metadata.map fun stored => stored.removeValues m }) ?_
  · have hsame : (acc.change p fun g => some (id g)) = acc := acc.change_some p
    rwa [hsame] at hends
  · intro q q' hrun
    cases hrun
    exact ⟨rfl, congrArg (Progress.mk _) (Option.isSome_map ..)⟩

/-! ## Attempts -/

/-- Every operation leaves an archive that follows the account of those that succeeded. -/
theorem Follows.perform {op : Operation} {rest : List Operation}
    (h : Follows (freshIds (op :: rest)) acc a) (hfresh : (freshIds (op :: rest)).Nodup) :
    Ends (s.catalog.perform op) a (Follows (freshIds rest) (acc.note op))
      (Follows (freshIds rest) acc) := by
  cases op with
  | add r p => exact (h.add (List.nodup_cons.1 hfresh).1).answer _
  | modify p =>
    exact (h.editProduct (fun old => { old with
      name := p.name, fileStructure := p.fileStructure, status := p.status,
      references := p.references }) (fun _ => p.references) fun _ => rfl).answer _
  | remove p => exact h.remove.answer _
  | setStatus p => exact h.setStatus.answer _
  | addReferences p =>
    exact (h.editProduct (fun old => { old with references := p.references })
      (fun _ => p.references) fun _ => rfl).answer _
  | addMetadata m p => exact (h.addMetadata m).answer _
  | removeMetadata m p => exact (h.removeMetadata m).answer _
  | _ => exact (silent_perform rfl).ends h h

/-- However its operations end, a history leaves an archive that follows an account of it. -/
theorem exists_follows {history rest : List Operation}
    (hfresh : (freshIds (history ++ rest)).Nodup)
    (h : Follows (freshIds (history ++ rest)) acc a) :
    ∃ acc', Follows (freshIds rest) acc' (s.catalog.after a history) := by
  induction history generalizing a acc with
  | nil => exact ⟨acc, h⟩
  | cons op tail ih =>
    let follows : Archive → Prop := fun b => ∃ acc', Follows (freshIds (tail ++ rest)) acc' b
    have hends : Ends (s.catalog.perform op) a follows follows :=
      (h.perform hfresh).mono (fun _ hgood => ⟨_, hgood⟩) fun _ hbad => ⟨_, hbad⟩
    have hnext : follows ((s.catalog.perform op).run a).2 := hends.property
    rcases hnext with ⟨acc', hnext⟩
    exact ih (nodup_freshIds_rest hfresh) hnext

/-- The archive follows the account, and the ids to be given in the attempts to come are new. -/
def Attempted (ts : List Attempt) (acc : Account) (a : Archive) : Prop :=
  (freshIds (ts.map Attempt.operation)).Nodup ∧
    Follows (freshIds (ts.map Attempt.operation)) acc a

theorem Attempted.step {t : Attempt} {ts : List Attempt} (h : Attempted (t :: ts) acc a) :
    Ends ((s.catalogDuring t.outage).perform t.operation) a
      (Attempted ts (acc.note t.operation)) (Attempted ts acc) := by
  rcases h with ⟨hfresh, h⟩
  have hrest := nodup_freshIds_rest hfresh
  exact (h.perform hfresh).mono (fun _ hafter => ⟨hrest, hafter⟩) fun _ hafter => ⟨hrest, hafter⟩

/-- The slots are those of the incomplete products of an account, the documents those of the
complete ones. -/
structure Assembled (acc : Account) (a : Archive) : Prop where
  /-- No product has two documents. -/
  documents : (a.documents.map Document.id).Nodup
  /-- No product has two slots. -/
  slots : (a.cache.slots.map Prod.fst).Nodup
  document_iff : ∀ id, (∃ d ∈ a.documents, d.id = id) ↔ ∃ g, acc id = some g ∧ g.isComplete = true
  slot_iff : ∀ id, (∃ slot, (id, slot) ∈ a.cache.slots) ↔
    ∃ g, acc id = some g ∧ g.isComplete = false
  /-- No slot is empty, and what is in it is incomplete and not indexed. -/
  waiting : ∀ id slot, (id, slot) ∈ a.cache.slots →
    ∃ q, slot.pending = some q ∧ q.indexed = false ∧ q.isComplete = false
  /-- No product has both. -/
  apart : ∀ d ∈ a.documents, ∀ slot, (d.id, slot) ∉ a.cache.slots
  /-- The files of indexed products are in the archive. -/
  materialized : ∀ d ∈ a.documents, d.references ≠ [] ∧ ∀ r ∈ d.references, r.stored ≠ ""

/-- A registered product waits exactly if the account has it incomplete. -/
theorem Follows.waits_iff (h : Follows later acc a) {g : Progress} (hg : acc id = some g) :
    a.cache.pending? id ≠ none ↔ g.isComplete = false := by
  cases hwaiting : a.cache.pending? id with
  | some q =>
    rcases h.waiting id q hwaiting with ⟨-, hincomplete, hpending⟩
    obtain rfl : g = .ofPending q := Option.some.inj (hg.symm.trans hpending)
    simp [Progress.isComplete_ofPending, hincomplete]
  | none =>
    rcases (h.known id g hg).2 hwaiting with ⟨d, hd, rfl⟩
    rcases h.indexed d hd with ⟨hdocument, hcomplete⟩
    obtain rfl : g = ⟨d.references, true⟩ := Option.some.inj (hg.symm.trans hdocument)
    simp [hcomplete]

theorem Follows.assembled (h : Follows later acc a) (hfilled : Filled a) : Assembled acc a := by
  have hwaiting : ∀ id slot, (id, slot) ∈ a.cache.slots →
      ∃ q, slot.pending = some q ∧ a.cache.pending? id = some q := by
    intro id slot hslot
    have hfound : a.cache.slot? id = some slot := (lookup_eq_some_iff hfilled.ids).2 hslot
    have hfull := hfilled.full id slot hfound (by simp)
    rcases Option.isSome_iff_exists.1 hfull with ⟨q, hq⟩
    refine ⟨q, hq, ?_⟩
    rw [AssemblyCache.pending?, hfound]
    exact hq
  have hdocument : ∀ d ∈ a.documents, ∀ slot, (d.id, slot) ∉ a.cache.slots := by
    intro d hd slot hslot
    rcases hwaiting d.id slot hslot with ⟨q, -, hq⟩
    exact absurd (List.find?_eq_none.1 (h.document?_of_waiting hq) d hd) (by simp)
  refine ⟨h.ids, hfilled.ids, ?_, ?_, ?_, hdocument, ?_⟩
  · intro id
    constructor
    · rintro ⟨d, hd, rfl⟩
      exact ⟨_, h.indexed d hd⟩
    · rintro ⟨g, hg, hcomplete⟩
      apply (h.known id g hg).2
      by_contra hwaits
      rw [(h.waits_iff hg).1 hwaits] at hcomplete
      cases hcomplete
  · intro id
    constructor
    · rintro ⟨slot, hslot⟩
      rcases hwaiting id slot hslot with ⟨q, -, hq⟩
      rcases h.waiting id q hq with ⟨-, hincomplete, hpending⟩
      exact ⟨_, hpending, (Progress.isComplete_ofPending q).trans hincomplete⟩
    · rintro ⟨g, hg, hincomplete⟩
      rcases Option.ne_none_iff_exists'.1 ((h.waits_iff hg).2 hincomplete) with ⟨q, hq⟩
      rcases Option.bind_eq_some_iff.1 hq with ⟨slot, hslot, -⟩
      exact ⟨slot, (lookup_eq_some_iff hfilled.ids).1 hslot⟩
  · intro id slot hslot
    rcases hwaiting id slot hslot with ⟨q, hpending, hq⟩
    rcases h.waiting id q hq with ⟨hunindexed, hincomplete, -⟩
    exact ⟨q, hpending, hunindexed, hincomplete⟩
  · intro d hd
    have hcomplete := (h.indexed d hd).2
    simpa [Progress.isComplete, FileReference.isMaterialized] using hcomplete

/-- Whatever operations are attempted, with whatever calls to collaborators failing, in whatever way
they end: the slots and documents are those that the successful ones call for. -/
theorem assembled_afterAttempts (s : Store) (attempts : List Attempt)
    (hfresh : (freshIds (attempts.map Attempt.operation)).Nodup) :
    Assembled ((Catalog.successes s.catalogDuring .empty attempts).foldl Account.note .empty)
      (Catalog.afterAttempts s.catalogDuring .empty attempts) := by
  have hinit : Attempted attempts .empty .empty := ⟨hfresh, follows_empty⟩
  have hfinal : Attempted []
      ((Catalog.successes s.catalogDuring .empty attempts).foldl Account.note .empty)
      (Catalog.afterAttempts s.catalogDuring .empty attempts) :=
    Catalog.successes_induction (fun _ _ _ _ => Attempted.step) hinit
  exact hfinal.2.assembled (filled_afterAttempts s attempts)

/-- A product is completed; changes of it fail while its type cannot be looked up, and later it
loses its file. -/
def interruptedWithdrawal : List Attempt :=
  let p : Product := ⟨some "1", "a", granule, .flat, .received, [⟨"a", "", 7, none⟩], none⟩
  (twoSteps granule).map (Attempt.mk .none) ++
    [⟨⟨false, true, false⟩, .addReferences p⟩, ⟨⟨true, false, false⟩, .addMetadata .empty p⟩,
      ⟨.none, .remove { p with id := some "2" }⟩, ⟨.none, .addReferences p⟩]

/-- The product has no document any more and waits in the only slot. -/
theorem assembled_after_interruptedWithdrawal :
    (freshIds (interruptedWithdrawal.map Attempt.operation)).Nodup ∧
      Assembled ((Catalog.successes twoTypesStore.catalogDuring .empty interruptedWithdrawal).foldl
          Account.note .empty)
        (Catalog.afterAttempts twoTypesStore.catalogDuring .empty interruptedWithdrawal) ∧
      (Catalog.afterAttempts twoTypesStore.catalogDuring .empty interruptedWithdrawal).cache.size =
        1 := by
  have hfresh : (freshIds (interruptedWithdrawal.map Attempt.operation)).Nodup := by decide
  exact ⟨hfresh, assembled_afterAttempts twoTypesStore interruptedWithdrawal hfresh,
    by decide +kernel⟩

end Store

end ArchiveCatalog.Inverted
