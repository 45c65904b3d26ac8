import ArchiveCatalog.Proofs.Interleaving
import ArchiveCatalog.Proofs.Inverted.Registered

namespace ArchiveCatalog.Inverted.Store

/-! # Writers of one product in an archive

A product whose references are materialized waits for its first metadata and has a document from
then on. Every change of its metadata puts a new document in the place of the old one, and all
other documents stay.
-/

variable {s : Store} {a b : Archive} {id : String} {p : Product} {q : Pending} {x : Option Metadata}

/-! ## Metadata of one product -/

/-- The archive is another one but for a product, which has a document if it has metadata and
waits for them otherwise. -/
structure Describes (a : Archive) (id : String) (p : Product) (x : Option Metadata) (b : Archive) :
    Prop where
  documents : b.documents.Perm
    ((a.withdraw id).documents ++ (x.map (Document.ofProduct id p)).toList)
  pending : b.cache.pending? id = if x.isSome then none else some ⟨p, none, false⟩

namespace Describes

theorem congr (h : Describes a id p x b) {c : Archive} (hsame : Archive.Same c b) :
    Describes a id p x c := ⟨hsame.1 ▸ h.documents, (hsame.2 id).trans h.pending⟩

/-- No product has two documents. -/
theorem nodup_ids (h : Describes a id p x b) (hids : (a.documents.map Document.id).Nodup) :
    (b.documents.map Document.id).Nodup := by
  refine (h.documents.map Document.id).nodup_iff.2 ?_
  cases x with
  | some m => exact Archive.nodup_ids_index hids (.ofProduct id p m)
  | none => simpa using Archive.nodup_ids_withdraw hids id

theorem document?_eq (h : Describes a id p x b) (hids : (a.documents.map Document.id).Nodup) :
    b.document? id = x.map (Document.ofProduct id p) := by
  cases x with
  | some m =>
    have hmem : Document.ofProduct id p m ∈ b.documents :=
      h.documents.mem_iff.2 (List.mem_append_right _ List.mem_cons_self)
    exact Schema.find?_eq_some_of_nodup (h.nodup_ids hids) hmem
  | none =>
    refine List.find?_eq_none.2 ?_
    intro d hd
    have hother := h.documents.mem_iff.1 hd
    rw [Option.map_none, Option.toList_none, List.append_nil] at hother
    simpa using (List.mem_filter.1 hother).2

/-- What a write works on. -/
theorem run_currentPending (hschema : s.schema.Regular) (hp : s.IsRegistered id p)
    (htype : p.productType.id ≠ "") (h : Describes a id p x b)
    (hids : (a.documents.map Document.id).Nodup) :
    (s.currentPending id).run b = (.ok ⟨p, x, x.isSome⟩, b) := by
  have hpending := h.pending
  cases x with
  | none => exact run_currentPending_of_waiting hpending
  | some m =>
    have hdocument : (requireDocument id).run b = (.ok (.ofProduct id p m), b) := by
      rw [requireDocument, Action.run_reading, h.document?_eq hids]
      rfl
    rw [run_currentPending_of_none hpending, loadPending, Action.run_bind_ok hdocument,
      Action.run_bind, Action.run_ofExcept, hp.productOf hschema htype]
    rfl

/-- As its references are materialized, the product is complete once it has metadata. -/
theorem settle (hmaterialized : p.referencesMaterialized = true) (h : Describes a id p x b)
    (hids : (a.documents.map Document.id).Nodup) (y : Option Metadata) :
    Describes a id p y (b.settle id ⟨p, y, x.isSome⟩) := by
  have hcomplete : Pending.isComplete ⟨p, y, x.isSome⟩ = y.isSome := by
    rw [Pending.isComplete, hmaterialized, Bool.and_true]
  have hunindexed : x.isSome = false → b.document? id = none := by
    intro hnone
    rw [h.document?_eq hids, Option.isSome_eq_false_iff.1 hnone |> Option.isNone_iff_eq_none.1]
    rfl
  have hothers : (b.withdraw id).documents.Perm (a.withdraw id).documents := by
    have hfiltered := h.documents.filter (·.id != id)
    rw [List.filter_append] at hfiltered
    have hown : (x.map (Document.ofProduct id p)).toList.filter (·.id != id) = [] := by
      cases x with
      | none => rfl
      | some m => simp [Document.ofProduct]
    rw [hown, List.append_nil] at hfiltered
    simpa [Archive.withdraw, List.filter_filter] using hfiltered
  refine ⟨?_, ?_⟩
  · rw [Archive.documents_settle hunindexed, hcomplete]
    cases y with
    | none => simpa using hothers
    | some m => exact hothers.append_right _
  · rw [Archive.pending?_settle, if_pos rfl, hcomplete]
    cases y <;> rfl

/-- A write that changes metadata changes what is described. -/
theorem mutate (hschema : s.schema.Regular) (hp : s.IsRegistered id p)
    (htype : p.productType.id ≠ "") (hmaterialized : p.referencesMaterialized = true)
    (h : Describes a id p x b) (hids : (a.documents.map Document.id).Nodup) {copy : Product}
    (hcopy : copy.id = some id) {change : Action Pending Unit} {y : Option Metadata}
    (hchange : change.run ⟨p, x, x.isSome⟩ = (.ok (), ⟨p, y, x.isSome⟩)) :
    ∃ c, (do s.mutate copy change; return Answer.done : Action Archive Answer).run b =
      (.ok .done, c) ∧ Describes a id p y c := by
  rcases run_withSlot (s.changeInSlot id change) b id with ⟨c, hsame, -, hanswer, hafter⟩
  have hc := h.congr hsame
  rcases run_changeInSlot_ok (hc.run_currentPending hschema hp htype hids) hchange with
    ⟨d, hrun, halike⟩
  rw [hrun] at hanswer hafter
  have hmutate : (s.mutate copy change).run b =
      (.ok (), ((withSlot id (s.changeInSlot id change)).run b).2) := by
    rw [Store.mutate, Action.run_bind, Action.run_ofExcept, Product.requireId_of_id hcopy]
    exact Prod.ext hanswer rfl
  exact ⟨_, Action.run_bind_ok hmutate,
    ((hc.settle hmaterialized hids y).congr halike.same).congr hafter⟩

end Describes

/-! ## Queries -/

/-- A document without its metadata. -/
def bare (d : Document) : Document := { d with metadata := .empty }

theorem map_bare_newestFirst (documents : List Document) :
    (Document.newestFirst documents).map bare = Document.newestFirst (documents.map bare) :=
  List.map_mergeSort fun _ _ _ _ => rfl

/-- Of documents that differ in their metadata the same products are found. -/
theorem mapM_productOf_congr {xs ys : List Document} (h : xs.map bare = ys.map bare) :
    (Document.newestFirst xs).mapM s.productOf = (Document.newestFirst ys).mapM s.productOf := by
  have hbare : ∀ documents : List Document,
      documents.mapM s.productOf = (documents.map bare).mapM s.productOf := by
    intro documents
    rw [List.mapM_map]
    rfl
  rw [hbare, hbare (Document.newestFirst ys), map_bare_newestFirst, map_bare_newestFirst, h]

theorem Describes.productsFound_congr {y : Option Metadata} {c : Archive}
    (h : Describes a id p x b) (h' : Describes a id p y c)
    (hids : (a.documents.map Document.id).Nodup) (hthere : x.isSome = y.isSome)
    (hsame : (x.getD .empty).SameValues (y.getD .empty)) (q : Query) (typeId : String) :
    ((s.productsFound (.ofQuery q typeId)).run b).1 =
      ((s.productsFound (.ofQuery q typeId)).run c).1 := by
  have hfound : ∀ {z : Option Metadata} {e : Archive}, Describes a id p z e →
      ((s.productsFound (.ofQuery q typeId)).run e).1 =
        (Document.newestFirst (((a.withdraw id).documents ++
          (z.map (Document.ofProduct id p)).toList).filter
            fun d => (Search.ofQuery q typeId).accepts d)).mapM s.productOf := by
    intro z e he
    have hnodup : ((e.documents.filter fun d => (Search.ofQuery q typeId).accepts d).map
        Document.id).Nodup := (he.nodup_ids hids).sublist (List.filter_sublist.map Document.id)
    exact congrArg (·.mapM s.productOf)
      (Document.newestFirst_eq_of_perm (he.documents.filter _) hnodup)
  rw [hfound h, hfound h']
  refine mapM_productOf_congr ?_
  rw [List.filter_append, List.filter_append, List.map_append, List.map_append]
  congr 1
  cases x with
  | none =>
    cases y with
    | none => rfl
    | some n => cases hthere
  | some m =>
    cases y with
    | none => cases hthere
    | some n =>
      have haccepts : (Search.ofQuery q typeId).accepts (.ofProduct id p m) =
          (Search.ofQuery q typeId).accepts (.ofProduct id p n) := by
        rw [Search.accepts_ofQuery, Search.accepts_ofQuery]
        exact congrArg _ (Search.finds_congr hsame q)
      simp only [Option.map_some, Option.toList_some, List.filter_cons, haccepts, List.filter_nil]
      split <;> rfl

/-- Every call on a registered product whose references are materialized succeeds and changes what
is described. -/
theorem Describes.run_perform (hschema : s.schema.Regular) (hp : s.IsRegistered id p)
    (htype : p.productType.id ≠ "") (hmaterialized : p.referencesMaterialized = true)
    (hids : (a.documents.map Document.id).Nodup) (h : Describes a id p x b) {copy : Product}
    (hcopy : copy.id = some id) (call : Edit) :
    ∃ c, (s.catalog.perform (call.operation copy)).run b = (.ok .done, c) ∧
      Describes a id p (call.on (s.schema.declaredNames p.productType) x) c := by
  cases call with
  | add m =>
    refine h.mutate hschema hp htype hmaterialized hids hcopy ?_
    rw [run_mergeDeclared, hschema.declaredMetadata_eq]
    rfl
  | remove m => exact h.mutate hschema hp htype hmaterialized hids hcopy rfl

theorem Describes.run_metadata (hids : (a.documents.map Document.id).Nodup)
    (h : Describes a id p x b) {copy : Product} (hcopy : copy.id = some id) :
    ((metadata copy).run b).1 =
      match x with
      | some m => .ok m
      | none => .error (.notFound "Product" id) := by
  rw [metadata, Action.run_bind, Action.run_ofExcept, Product.requireId_of_id hcopy]
  dsimp only
  rw [Action.run_map, requireDocument, Action.run_reading, h.document?_eq hids]
  cases x <;> rfl

/-- The metadata of such a product are tracked. -/
theorem tracks (hschema : s.schema.Regular) (hids : (a.documents.map Document.id).Nodup)
    (hp : s.IsRegistered id p) (htype : p.productType.id ≠ "")
    (hmaterialized : p.referencesMaterialized = true) :
    s.catalog.Tracks id (s.schema.declaredNames p.productType) (Describes a id p) := by
  refine ⟨?_, ?_, ?_, ?_⟩
  · intro copy call x b hcopy h
    rcases h.run_perform hschema hp htype hmaterialized hids hcopy call with ⟨c, hrun, hafter⟩
    rw [hrun]
    exact hafter
  · intro copy m b hcopy h
    exact ⟨m, h.run_metadata hids hcopy, fun _ _ => Iff.rfl⟩
  · intro copy b hcopy h
    exact ⟨_, h.run_metadata hids hcopy⟩
  · intro q u x y b c hx hy hthere hsame
    show ((s.query q u).run b).1 = ((s.query q u).run c).1
    rw [query, Action.run_map, Action.run_map, matching]
    rw [Action.run_bind, Action.run_bind, Action.run_ofExcept, Action.run_ofExcept]
    cases s.schema.resolveType u with
    | error f => rfl
    | ok t =>
      dsimp only
      rw [Action.run_bind, Action.run_bind, Action.run_ofExcept, Action.run_ofExcept]
      cases s.schema.checkQuery q t with
      | error f => rfl
      | ok _ =>
        dsimp only
        rw [hx.productsFound_congr hy hids hthere hsame]

/-- Taking a document out and putting it back changes at most the order. -/
theorem perm_withdraw_append (hids : (a.documents.map Document.id).Nodup) {d : Document}
    (hd : d ∈ a.documents) : a.documents.Perm ((a.withdraw d.id).documents ++ [d]) := by
  have hafter : ((a.withdraw d.id).documents ++ [d]).Nodup := (Archive.nodup_ids_index hids d).of_map
  refine (List.perm_ext_iff_of_nodup hids.of_map hafter).2 fun other => ?_
  rw [List.mem_append, List.mem_singleton, Archive.withdraw, List.mem_filter, bne_iff_ne]
  constructor
  · intro hother
    by_cases hid : other.id = d.id
    · exact .inr (List.inj_on_of_nodup_map hids hother hd hid)
    · exact .inl ⟨hother, hid⟩
  · rintro (⟨hother, -⟩ | rfl)
    · exact hother
    · exact hd

/-- A product that waits or is indexed is described as it is. -/
theorem exists_describes (hschema : s.schema.Regular) {later : List String} {acc : Account}
    (hfollows : Follows later acc a) (h : s.KeepsRegistered a)
    (hcurrent : ((s.currentPending id).run a).1 = .ok q)
    (hmaterialized : q.product.referencesMaterialized = true) :
    ∃ x, Describes a id q.product x a := by
  cases hwaiting : a.cache.pending? id with
  | some waiting =>
    rw [run_currentPending_of_waiting hwaiting] at hcurrent
    cases hcurrent
    rcases hfollows.waiting id q hwaiting with ⟨hunindexed, hincomplete, -⟩
    -- only metadata can be missing
    have hmetadata : q.metadata = none := by
      rw [Pending.isComplete, hmaterialized, Bool.and_true] at hincomplete
      simpa using hincomplete
    have hq : q = ⟨q.product, none, false⟩ := by
      rw [← hmetadata, ← hunindexed]
    refine ⟨none, ?_, hwaiting.trans (congrArg some hq)⟩
    rw [Archive.withdraw_of_document? (hfollows.document?_of_waiting hwaiting)]
    simp
  | none =>
    rw [run_currentPending_of_none hwaiting] at hcurrent
    rcases document?_of_loadPending hcurrent with ⟨d, t, hfound, ht, rfl⟩
    obtain rfl : d.id = id := by simpa using List.find?_some hfound
    refine ⟨some d.metadata, ?_, hwaiting⟩
    rw [Option.map_some, Option.toList_some, ← (h.loaded hschema hfound ht).2]
    exact perm_withdraw_append hfollows.ids (List.mem_of_find?_eq_some hfound)

/-- Writers of a registered product whose references are materialized succeed and lose nothing. -/
theorem losesNothing (hschema : s.schema.Regular) {later : List String} {acc : Account}
    (hfollows : Follows later acc a) (h : s.KeepsRegistered a) {stored : Pending}
    (hstored : ((s.currentPending id).run a).1 = .ok stored)
    (hmaterialized : stored.product.referencesMaterialized = true)
    (htype : stored.product.productType.id ≠ "")
    {ι : Type} [DecidableEq ι] {copies : ι → Product} {calls : ι → List Edit}
    (hcopies : ∀ w, (copies w).id = some id) (hapart : Apart calls) :
    s.catalog.LosesNothing a id (s.schema.declaredNames stored.product.productType) copies calls ∧
      s.catalog.Succeeds a id copies calls := by
  rcases exists_describes hschema hfollows h hstored hmaterialized with ⟨x, hx⟩
  have hregistered := h.current hschema hstored
  have htracks := tracks hschema hfollows.ids hregistered htype hmaterialized
  refine ⟨htracks.losesNothing hcopies hapart hx, htracks.succeeds ?_ hcopies hx⟩
  intro copy call y b hcopy hy
  rcases hy.run_perform hschema hregistered htype hmaterialized hfollows.ids hcopy call with
    ⟨c, hrun, -⟩
  rw [hrun]

end ArchiveCatalog.Inverted.Store
