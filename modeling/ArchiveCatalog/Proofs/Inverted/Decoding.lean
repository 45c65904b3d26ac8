import ArchiveCatalog.Proofs.Inverted.Registered

namespace ArchiveCatalog.Inverted

/-! # Documents that are decoded

From its registration until it is removed a product waits or is indexed, always with the type it
was registered with: a document has the id of the type, under which the type is found again when
the product is rebuilt for a write or for a reader.
-/

/-! ## Documents after a write -/

namespace Archive

variable {a : Archive} {id other : String} {q : Pending}

theorem document?_withdraw :
    (a.withdraw other).document? id = if id = other then none else a.document? id := by
  unfold document? withdraw
  dsimp only
  rw [List.find?_filter]
  split
  next hid =>
    refine List.find?_eq_none.2 ?_
    simp [hid]
  next hid =>
    congr 1
    funext d
    by_cases hd : d.id = id
    · simp [hd, hid]
    · simp [hd]

theorem document?_index (d : Document) :
    (a.index d).document? id = if id = d.id then some d else a.document? id := by
  have hfound : (a.index d).document? id =
      ((a.withdraw d.id).document? id).or (if d.id = id then some d else none) := by
    unfold document? index
    dsimp only
    rw [List.find?_append, List.find?_singleton]
    simp
  rw [hfound, document?_withdraw]
  by_cases hid : id = d.id
  · simp [hid]
  · simp [hid, Ne.symm hid]

/-- Settling a product leaves the documents of the others as they are. -/
theorem document?_settle_of_ne (hother : id ≠ other) :
    (a.settle other q).document? id = a.document? id := by
  unfold settle
  split
  · exact (document?_index _).trans (if_neg hother)
  · split
    · exact document?_withdraw.trans (if_neg hother)
    · rfl

/-- The document of a settled product is the one that was there, if it is incomplete. -/
theorem document?_settle_self {d : Document} (hfound : (a.settle id q).document? id = some d) :
    d = .ofProduct id q.product (q.metadata.getD .empty) ∨
      q.isComplete = false ∧ a.document? id = some d := by
  unfold settle at hfound
  split at hfound
  next hcomplete =>
    have hnew : (a.index (.ofProduct id q.product (q.metadata.getD .empty))).document? id =
        some (.ofProduct id q.product (q.metadata.getD .empty)) :=
      (document?_index _).trans (if_pos rfl)
    exact .inl (Option.some.inj (hfound.symm.trans hnew))
  next hincomplete =>
    split at hfound
    next =>
      have hgone : (a.withdraw id).document? id = none := document?_withdraw.trans (if_pos rfl)
      cases hgone.symm.trans hfound
    next => exact .inr ⟨eq_false_of_ne_true hincomplete, hfound⟩

end Archive

namespace Store

open ArchiveCatalog.Action (Ends Keeps)

variable {s : Store} {a b : Archive} {id : String} {t : ProductType} {p : Product} {q : Pending}

/-- The product of the id waits as one of the type, or there is a document with the id of the
type. -/
structure Holds (id : String) (t : ProductType) (a : Archive) : Prop where
  waiting : ∀ q, a.cache.pending? id = some q → q.isComplete = false ∧ q.product.productType = t
  indexed : ∀ d, a.document? id = some d → d.typeId = t.id
  there : a.cache.pending? id = none → a.document? id ≠ none

theorem Holds.of_eq (h : Holds id t a) (hpending : b.cache.pending? id = a.cache.pending? id)
    (hdocument : b.document? id = a.document? id) : Holds id t b := by
  constructor
  · rw [hpending]
    exact h.waiting
  · rw [hdocument]
    exact h.indexed
  · rw [hpending, hdocument]
    exact h.there

theorem Holds.congr (h : Holds id t a) (hsame : Archive.Same b a) : Holds id t b := by
  refine h.of_eq (hsame.2 id) ?_
  rw [Archive.document?, hsame.1, ← Archive.document?]

/-- A write works on a product of the type. -/
theorem Holds.current (ht : s.schema.typeById t.id = .ok t) (h : Holds id t a)
    (hcurrent : ((s.currentPending id).run a).1 = .ok q) : q.product.productType = t := by
  cases hwaiting : a.cache.pending? id with
  | some waiting =>
    rw [run_currentPending_of_waiting hwaiting] at hcurrent
    cases hcurrent
    exact (h.waiting q hwaiting).2
  | none =>
    rw [run_currentPending_of_none hwaiting] at hcurrent
    rcases document?_of_loadPending hcurrent with ⟨d, u, hfound, hu, rfl⟩
    rw [h.indexed d hfound, ht] at hu
    exact (Except.ok.inj hu).symm

/-- A product of the type is settled, whether or not it was there. -/
theorem holds_settle (htype : q.product.productType = t)
    (hindexed : ∀ d, a.document? id = some d → d.typeId = t.id) : Holds id t (a.settle id q) := by
  have hpending : (a.settle id q).cache.pending? id =
      if q.isComplete then none else some { q with indexed := false } :=
    Archive.pending?_settle.trans (if_pos rfl)
  constructor
  · intro waiting hwaiting
    rw [hpending] at hwaiting
    rcases Option.ite_none_left_eq_some.1 hwaiting with ⟨hincomplete, hsame⟩
    cases hsame
    exact ⟨eq_false_of_ne_true hincomplete, htype⟩
  · intro d hfound
    rcases Archive.document?_settle_self hfound with rfl | ⟨-, hbefore⟩
    · exact congrArg ProductType.id htype
    · exact hindexed d hbefore
  · intro hnone
    rw [hpending] at hnone
    -- what does not wait is complete and has been indexed
    have hcomplete : q.isComplete = true := by
      by_contra hincomplete
      rw [if_neg hincomplete] at hnone
      cases hnone
    have hdocument : (a.settle id q).document? id =
        some (.ofProduct id q.product (q.metadata.getD .empty)) := by
      unfold Archive.settle
      rw [if_pos hcomplete]
      exact (Archive.document?_index _).trans (if_pos rfl)
    rw [hdocument]
    exact Option.some_ne_none _

theorem Holds.settle_of_ne {other : String} (h : Holds id t a) (hother : id ≠ other) :
    Holds id t (a.settle other q) :=
  h.of_eq (Archive.pending?_settle.trans (if_neg hother)) (Archive.document?_settle_of_ne hother)

/-! ## Writes -/

/-- What an action in a slot keeps, the write around it keeps. -/
theorem Holds.withSlot {α : Type} {other : String} {action : Action Archive α} (h : Holds id t a)
    (haction : ∀ b, Holds id t b → (b.cache.slot? other).isSome = true →
      Holds id t (action.run b).2) :
    Ends (withSlot other action) a (Holds id t) (Holds id t) := by
  refine ends_withSlot ?_ ?_ fun b hsame hslot => Action.ends_of_property ?_
  · exact fun _ _ hsame hb => hb.congr hsame
  · exact fun _ _ hsame hb => hb.congr hsame
  · exact haction b (h.congr hsame) hslot

theorem keepsHolds_mutate (ht : s.schema.typeById t.id = .ok t) {change : Action Pending Unit}
    (hchange : KeepsIdentity change) : Keeps (Holds id t) (s.mutate p change) := by
  intro a h
  refine Ends.property (Action.ends_ofExcept_bind h fun other _ => h.withSlot fun b hb hslot => ?_)
  refine Ends.property (ends_changeInSlot hchange.atomic hslot ?_ fun c halike =>
    hb.congr halike.same)
  intro q q' c hcurrent hrun halike
  refine Holds.congr ?_ halike.same
  by_cases hother : id = other
  · -- what is settled has the type of what was waiting, or of what was rebuilt from the document
    subst hother
    have htype := hb.current ht (congrArg Prod.fst hcurrent)
    exact holds_settle ((hchange.same q q' hrun).2.1.trans htype) hb.indexed
  · exact hb.settle_of_ne hother

theorem keepsHolds_add {r : Registration} (hother : id ≠ r.freshId) :
    Keeps (Holds id t) (s.add r p) := by
  intro a h
  refine Ends.property (Action.ends_ofExcept_bind h fun _ _ => Action.ends_ofExcept_bind h
    fun u _ => Ends.answer (h.withSlot fun b hb _ => ?_) _)
  exact hb.settle_of_ne (q := .ofProduct { p with
    id := some r.freshId, productType := u, received := Instant.ofMillis? r.millis }) hother

/-- Erasing a product leaves the others as they are. -/
theorem eraseInSlot_of_ne {other : String} (hother : id ≠ other) (b : Archive) :
    ((eraseInSlot other).run b).2.cache.pending? id = b.cache.pending? id ∧
      ((eraseInSlot other).run b).2.document? id = b.document? id := by
  let kept : Archive → Prop := fun c =>
    c.cache.pending? id = b.cache.pending? id ∧ c.document? id = b.document? id
  have hwithdrawn : (b.withdraw other).document? id = b.document? id :=
    Archive.document?_withdraw.trans (if_neg hother)
  show kept ((eraseInSlot other).run b).2
  rw [eraseInSlot, Action.run_bind_ok (Action.run_get b)]
  cases b.cache.pending? other with
  | some pending =>
    dsimp only
    rw [Action.run_set]
    cases pending.indexed with
    | true => exact ⟨(AssemblyCache.pending?_store none).trans (if_neg hother), hwithdrawn⟩
    | false => exact ⟨(AssemblyCache.pending?_store none).trans (if_neg hother), rfl⟩
  | none =>
    exact ((silent_requireDocument other).bind fun _ => Action.silent_pure _).bind_property
      ⟨rfl, rfl⟩ fun _ => ⟨rfl, hwithdrawn⟩

theorem keepsHolds_remove (hother : p.id ≠ some id) : Keeps (Holds id t) (remove p) := by
  intro a h
  refine Ends.property (Action.ends_ofExcept_bind h fun removed hid => h.withSlot fun b hb _ => ?_)
  have hne : id ≠ removed := by
    rintro rfl
    exact hother (Product.id_of_requireId hid)
  rcases eraseInSlot_of_ne hne b with ⟨hpending, hdocument⟩
  exact hb.of_eq hpending hdocument

/-- Every operation keeps what is held, if the id is not given anew and not removed. -/
theorem keepsHolds_perform (ht : s.schema.typeById t.id = .ok t) {op : Operation}
    (hnew : ∀ r p, op = .add r p → id ≠ r.freshId) (hkept : ∀ q, op = .remove q → q.id ≠ some id) :
    Keeps (Holds id t) (s.catalog.perform op) :=
  keeps_perform_of (fun r p hop => keepsHolds_add (hnew r p hop))
    (fun p hop => keepsHolds_remove (hkept p hop)) fun _ _ hchange => keepsHolds_mutate ht hchange

theorem Holds.after (ht : s.schema.typeById t.id = .ok t) {history : List Operation}
    (hnew : id ∉ freshIds history) (hkept : ∀ q, .remove q ∈ history → q.id ≠ some id)
    (h : Holds id t a) : Holds id t (s.catalog.after a history) := by
  refine Catalog.after_induction (fun op hop => keepsHolds_perform ht ?_ ?_) h
  · rintro r p rfl rfl
    exact hnew (freshId_mem hop)
  · rintro q rfl
    exact hkept q hop

/-! ## Registering and decoding -/

/-- The product waits, as one of the type it has. -/
def Waits (a : Archive) (stored : Product) : Prop :=
  ∃ id q, stored.id = some id ∧ a.cache.pending? id = some q ∧ q.isComplete = false ∧
    q.product.productType = stored.productType

/-- A product that is registered gets the type that its type is resolved to, and is held. -/
theorem holds_of_run_add {r : Registration} {stored : Product}
    (hnew : a.document? r.freshId = none) (hadd : (s.add r p).run a = (.ok stored, b)) :
    s.schema.resolveType p.productType = .ok stored.productType ∧ stored.id = some r.freshId ∧
      Holds r.freshId stored.productType b := by
  rcases Action.run_ofExcept_bind_eq_ok hadd with ⟨_, -, hrest⟩
  rcases Action.run_ofExcept_bind_eq_ok hrest with ⟨u, hresolved, hwritten⟩
  rcases Action.run_bind_eq_ok hwritten with ⟨_, c, hslot, hanswer⟩
  cases hanswer
  refine ⟨hresolved, rfl, ?_⟩
  rcases run_withSlot_modify (fun a => a.store r.freshId (some (.ofProduct { p with
    id := some r.freshId, productType := u, received := Instant.ofMillis? r.millis }))) a r.freshId
    with ⟨start, hsame, last, hrun, hafter⟩
  obtain rfl : b = last := congrArg Prod.snd (hslot.symm.trans hrun)
  have hnone : start.document? r.freshId = none := by
    rw [Archive.document?, hsame.1]
    exact hnew
  refine (holds_settle (q := .ofProduct { p with
    id := some r.freshId, productType := u, received := Instant.ofMillis? r.millis }) rfl ?_).congr
    hafter
  intro d hd
  cases hnone.symm.trans hd

/-- What is held is decoded with its type, unless it waits. -/
theorem Holds.findsAgain_or_waits {stored : Product} (hid : stored.id = some id)
    (ht : s.schema.typeById stored.productType.id = .ok stored.productType)
    (h : Holds id stored.productType a) : s.catalog.FindsAgain a stored ∨ Waits a stored := by
  cases hwaiting : a.cache.pending? id with
  | some q =>
    rcases h.waiting q hwaiting with ⟨hincomplete, htype⟩
    exact .inr ⟨id, q, hid, hwaiting, hincomplete, htype⟩
  | none =>
    rcases Option.ne_none_iff_exists'.1 (h.there hwaiting) with ⟨d, hfound⟩
    have hrequired : (requireDocument id).run a = (.ok d, a) := by
      rw [requireDocument, Action.run_reading, hfound]
    have hdecoded : s.productOf d = .ok (d.product stored.productType) := by
      rw [productOf, h.indexed d hfound, ht]
      rfl
    have hdocument : d.id = id := by simpa using List.find?_some hfound
    refine .inl ⟨id, d.product stored.productType, hid, ?_, ?_, rfl⟩
    · show ((s.byId id).run a).1 = _
      rw [byId, Action.run_bind_ok hrequired, Action.run_ofExcept, hdecoded]
    · rw [hid, ← hdocument]
      rfl

/-- What is registered waits or is decoded with its type until it is removed, if the type has an
id. -/
theorem findsAgain_or_waits_of_run_add (hs : s.schema.Regular) {before later : List Operation}
    {r : Registration} {stored : Product} (hfresh : (freshIds (before ++ .add r p :: later)).Nodup)
    (hadd : (s.add r p).run (s.catalog.after .empty before) = (.ok stored, b))
    (hid : stored.productType.id ≠ "") (hkept : ∀ q, .remove q ∈ later → q.id ≠ stored.id) :
    s.schema.resolveType p.productType = .ok stored.productType ∧
      (s.catalog.FindsAgain (s.catalog.after b later) stored ∨
        Waits (s.catalog.after b later) stored) := by
  rcases exists_follows (s := s) hfresh follows_empty with ⟨acc, hfollows⟩
  have hnone : (s.catalog.after .empty before).document? r.freshId = none :=
    hfollows.document?_of_later List.mem_cons_self
  rcases holds_of_run_add hnone hadd with ⟨hresolved, hstored, hholds⟩
  have ht := (hs.typeById_iff_of_resolveType hresolved).2 hid
  have hnew := (freshId_not_mem hfresh).2
  rw [hstored] at hkept
  exact ⟨hresolved, (hholds.after ht hnew hkept).findsAgain_or_waits hstored ht⟩

end Store

end ArchiveCatalog.Inverted
