import ArchiveCatalog.Proofs.Criteria
import ArchiveCatalog.Proofs.Json
import ArchiveCatalog.Proofs.Metadata
import ArchiveCatalog.Proofs.Numeral
import ArchiveCatalog.Remote.Record

namespace ArchiveCatalog

/-! # Records of products

A record has one value under each reserved key, which tells of the product, and under all
other keys what the metadata have there. As long as no metadata use a reserved key, product
and metadata are read back from the record, and a write of the one leaves the other alone.
-/

namespace Metadata

variable {m : Metadata} {key k : String}

theorem first?_eq (m : Metadata) (key : String) : m.first? key = (m.values key).head? := by
  unfold first? values
  cases m.get? key <;> rfl

theorem values_replace (m : Metadata) (key value k : String) :
    (m.replace key [value]).values k = if k = key then [value] else m.values k := by
  have hadded : [value].foldl ElementRegistry.appendNew [] = [value] := rfl
  unfold replace
  rw [values_addAll, values_erase, if_pos rfl, hadded]
  split
  · rfl
  · rename_i hk
    rw [values_erase, if_neg hk]

theorem get?_eraseAll (m : Metadata) (keys : List String) (k : String) :
    (m.eraseAll keys).get? k = if k ∈ keys then none else m.get? k := by
  unfold eraseAll
  induction keys generalizing m with
  | nil => simp
  | cons key rest ih =>
    rw [List.foldl_cons, ih, get?_erase]
    by_cases hrest : k ∈ rest
    · simp [hrest]
    · by_cases hk : k = key <;> simp [hrest, hk]

theorem values_eraseAll (m : Metadata) (keys : List String) (k : String) :
    (m.eraseAll keys).values k = if k ∈ keys then [] else m.values k := by
  unfold values
  rw [get?_eraseAll]
  split <;> rfl

theorem Regular.eraseAll (h : m.Regular) (keys : List String) : (m.eraseAll keys).Regular := by
  intro k vs hget
  rw [get?_eraseAll] at hget
  split at hget
  · cases hget
  · exact h k vs hget

end Metadata

namespace Remote

variable {p : Product} {millis : Int} {m record : Metadata} {key k : String}

/-! ## What a record holds -/

/-- The record of a product with metadata. -/
def recordOf (p : Product) (millis : Int) (m : Metadata) : Metadata :=
  assign Key.receivedTime (toString millis) (writeProduct p m)

/-- What `writeProduct` puts under which keys. -/
def productEntries (p : Product) : List (String × String) :=
  [(Key.name, p.name), (Key.typeName, p.productType.name), (Key.typeId, p.productType.id),
    (Key.fileStructure, p.fileStructure.label), (Key.transferStatus, p.status.label),
    (Key.references, Json.writeReferences p.references)]

/-- What the record of a product has under the reserved keys. -/
def description (p : Product) (millis : Int) : List (String × String) :=
  (Key.receivedTime, toString millis) :: productEntries p

theorem perm_keys_description (p : Product) (millis : Int) :
    ((description p millis).map Prod.fst).Perm Key.reserved := by
  show [Key.receivedTime, Key.name, Key.typeName, Key.typeId, Key.fileStructure,
    Key.transferStatus, Key.references].Perm Key.reserved
  decide

theorem nodup_keys_description (p : Product) (millis : Int) :
    ((description p millis).map Prod.fst).Nodup :=
  (perm_keys_description p millis).nodup_iff.2 (by decide)

/-- No key is assigned twice, so the value under each stands. -/
theorem values_writeProduct (p : Product) (record : Metadata) (k : String) :
    (writeProduct p record).values k =
      match (productEntries p).lookup k with
      | some v => [v]
      | none => record.values k := by
  simp only [writeProduct, writeReferences, assign, Metadata.values_replace]
  by_cases hk : k ∈ (productEntries p).map Prod.fst
  · simp only [productEntries, List.map_cons, List.map_nil, List.mem_cons, List.not_mem_nil,
      or_false] at hk
    rcases hk with rfl | rfl | rfl | rfl | rfl | rfl <;> rfl
  · rw [Metadata.lookup_of_not_mem k hk]
    simp only [productEntries, List.map_cons, List.map_nil, List.mem_cons, List.not_mem_nil,
      or_false, not_or] at hk
    simp only [hk, if_false]

theorem values_recordOf (p : Product) (millis : Int) (m : Metadata) (k : String) :
    (recordOf p millis m).values k =
      match (description p millis).lookup k with
      | some v => [v]
      | none => m.values k := by
  rw [recordOf, assign, Metadata.values_replace, values_writeProduct, description, lookup_cons_ite]
  split <;> rfl

theorem values_recordOf_of_mem {v : String} (h : (key, v) ∈ description p millis) :
    (recordOf p millis m).values key = [v] := by
  rw [values_recordOf, (lookup_eq_some_iff (nodup_keys_description p millis)).2 h]

theorem values_recordOf_of_not_mem (h : k ∉ Key.reserved) :
    (recordOf p millis m).values k = m.values k := by
  have hnone := Metadata.lookup_of_not_mem k (mt (perm_keys_description p millis).mem_iff.1 h)
  rw [values_recordOf, hnone]

theorem regular_writeProduct (h : record.Regular) (p : Product) : (writeProduct p record).Regular :=
  (((((h.replace _ _).replace _ _).replace _ _).replace _ _).replace _ _).replace _ _

theorem regular_recordOf (h : m.Regular) (p : Product) (millis : Int) :
    (recordOf p millis m).Regular := (regular_writeProduct h p).replace _ _

/-- A record is known by what it has under the reserved keys and under all others. -/
theorem eq_recordOf (hrecord : record.Regular) (hm : m.Regular)
    (hreserved : ∀ e ∈ description p millis, record.values e.1 = [e.2])
    (hothers : ∀ k, k ∉ Key.reserved → record.values k = m.values k) :
    record = recordOf p millis m := by
  apply hrecord.ext (regular_recordOf hm p millis)
  intro k
  by_cases hk : k ∈ Key.reserved
  · rcases List.mem_map.1 ((perm_keys_description p millis).mem_iff.2 hk) with ⟨⟨key, v⟩, he, rfl⟩
    rw [hreserved _ he, values_recordOf_of_mem he]
  · rw [hothers k hk, values_recordOf_of_not_mem hk]

/-! ## Reading a record -/

theorem required_recordOf {v : String} (h : (key, v) ∈ description p millis) :
    required (recordOf p millis m) key = .ok v := by
  rw [required, Metadata.first?_eq, values_recordOf_of_mem h]
  rfl

theorem readType_recordOf (s : Schema) :
    readType s (recordOf p millis m) = s.typeById p.productType.id := by
  have hid : required (recordOf p millis m) Key.typeId = .ok p.productType.id :=
    required_recordOf (by simp [description, productEntries])
  rw [readType, hid]
  rfl

theorem readReferences_recordOf (h : ∀ r ∈ p.references, Json.CountsSize r) :
    readReferences (recordOf p millis m) = .ok p.references := by
  have hfirst : (recordOf p millis m).first? Key.references =
      some (Json.writeReferences p.references) := by
    rw [Metadata.first?_eq, values_recordOf_of_mem (v := Json.writeReferences p.references)
      (by simp [description, productEntries])]
    rfl
  rw [readReferences, hfirst]
  exact Json.readReferences_writeReferences h

theorem readReceived_recordOf (h : Text.fitsInt64 millis = true) :
    readReceived (recordOf p millis m) = .ok (Instant.ofMillis? millis) := by
  have hfirst : (recordOf p millis m).first? Key.receivedTime = some (toString millis) := by
    rw [Metadata.first?_eq, values_recordOf_of_mem (v := toString millis)
      (by simp [description, productEntries])]
    rfl
  rw [readReceived, hfirst]
  simp only [Text.readInt64?_toString h]

/-- A product whose numbers can be written down is read back from its record. -/
theorem readProduct_recordOf {s : Schema} {id : String} (hid : p.id = some id)
    (htype : s.typeById p.productType.id = .ok p.productType)
    (hreceived : p.received = Instant.ofMillis? millis) (hfits : Text.fitsInt64 millis = true)
    (hsizes : ∀ r ∈ p.references, Json.CountsSize r) :
    readProduct s id (recordOf p millis m) = .ok p := by
  have hname : required (recordOf p millis m) Key.name = .ok p.name :=
    required_recordOf (by simp [description, productEntries])
  have hstructure : required (recordOf p millis m) Key.fileStructure = .ok p.fileStructure.label :=
    required_recordOf (by simp [description, productEntries])
  have hstatus : required (recordOf p millis m) Key.transferStatus = .ok p.status.label :=
    required_recordOf (by simp [description, productEntries])
  simp only [readProduct, readReferences_recordOf hsizes, readReceived_recordOf hfits, hname,
    readType_recordOf, htype, hstructure, hstatus, FileStructure.ofLabel_label,
    TransferStatus.ofLabel_label, bind, Except.bind, pure, Except.pure, ← hid, ← hreceived]

/-- No key is reserved. -/
def Unreserved (m : Metadata) : Prop := ∀ key ∈ Key.reserved, m.values key = []

theorem unreserved_empty : Unreserved .empty := fun key _ => Metadata.values_empty key

theorem Unreserved.merge {other : Metadata} (hm : Unreserved m) (hother : Unreserved other) :
    Unreserved (m.merge other) := by
  intro key hkey
  rw [Metadata.values_merge, hm key hkey, hother key hkey]
  rfl

theorem Unreserved.removeValues (hm : Unreserved m) (other : Metadata) :
    Unreserved (m.removeValues other) := by
  intro key hkey
  rw [Metadata.values_removeValues, hm key hkey]
  rfl

theorem values_withoutReserved (m : Metadata) (k : String) :
    (withoutReserved m).values k = if k ∈ Key.reserved then [] else m.values k :=
  m.values_eraseAll Key.reserved k

/-- It makes no difference whether the reserved keys go first or the fields are chosen first. -/
theorem withoutReserved_reduce (m : Metadata) (fields : List String) :
    withoutReserved (m.reduce fields) = (withoutReserved m).reduce fields := by
  apply Metadata.ext_get?
  intro k
  rw [withoutReserved, withoutReserved, Metadata.get?_eraseAll, Metadata.get?_reduce,
    Metadata.get?_reduce, Metadata.get?_eraseAll]
  split <;> simp

theorem withoutReserved_withoutReserved (m : Metadata) :
    withoutReserved (withoutReserved m) = withoutReserved m := by
  apply Metadata.ext_get?
  intro k
  rw [withoutReserved, withoutReserved, Metadata.get?_eraseAll, Metadata.get?_eraseAll]
  split <;> rfl

/-- The metadata of a record are those it was written with. -/
theorem withoutReserved_recordOf (hregular : m.Regular) (hm : Unreserved m) :
    withoutReserved (recordOf p millis m) = m := by
  apply ((regular_recordOf hregular p millis).eraseAll Key.reserved).ext hregular
  intro k
  rw [← withoutReserved, values_withoutReserved]
  split
  · rename_i hk
    exact (hm k hk).symm
  · rename_i hk
    exact values_recordOf_of_not_mem hk

/-- Metadata in which every key of a query stands apart from the reserved ones satisfy it as their
record does. -/
theorem holds_recordOf {q : Query} (h : ∀ e ∈ q.elements, e ∉ Key.reserved) :
    q.holds (recordOf p millis m) = q.holds m :=
  Query.holds_congr fun e he v => by rw [values_recordOf_of_not_mem (h e he)]

theorem holds_term_recordOf {v : String} (h : (key, v) ∈ description p millis) (value : String) :
    (Criteria.term key value).holds (recordOf p millis m) = (v == value) := by
  rw [Criteria.holds, values_recordOf_of_mem h, List.any_cons, List.any_nil, Bool.or_false]

/-! ## Writing into a record -/

/-- An assignment under a reserved key changes what the record has there, and nothing else. -/
theorem assign_recordOf {q : Product} {value : String} (hm : m.Regular) (hkey : key ∈ Key.reserved)
    (hdescription : ∀ e ∈ description q millis,
      e = (key, value) ∨ e.1 ≠ key ∧ e ∈ description p millis) :
    assign key value (recordOf p millis m) = recordOf q millis m := by
  apply eq_recordOf ((regular_recordOf hm p millis).replace key [value]) hm
  · intro e he
    rw [Metadata.values_replace]
    rcases hdescription e he with rfl | ⟨hne, hbefore⟩
    · exact if_pos rfl
    · rw [if_neg hne, values_recordOf_of_mem hbefore]
  · intro k hk
    rw [Metadata.values_replace, if_neg (ne_of_mem_of_not_mem hkey hk).symm,
      values_recordOf_of_not_mem hk]

theorem writeReferences_recordOf (hm : m.Regular) (q : Product) :
    writeReferences q (recordOf p millis m) =
      recordOf { p with references := q.references } millis m := by
  apply assign_recordOf hm (by decide)
  simp [description, productEntries, Key.name, Key.typeName, Key.typeId, Key.fileStructure,
    Key.transferStatus, Key.receivedTime, Key.references]

theorem assign_transferStatus_recordOf (hm : m.Regular) (status : TransferStatus) :
    assign Key.transferStatus status.label (recordOf p millis m) =
      recordOf { p with status } millis m := by
  apply assign_recordOf hm (by decide)
  simp [description, productEntries, Key.name, Key.typeName, Key.typeId, Key.fileStructure,
    Key.transferStatus, Key.receivedTime, Key.references]

/-- Writing another product into a record replaces all but the received time. -/
theorem writeProduct_recordOf (hm : m.Regular) (q : Product) :
    writeProduct q (recordOf p millis m) = recordOf q millis m := by
  apply eq_recordOf ?_ hm
  · intro e he
    rw [values_writeProduct]
    rcases List.mem_cons.1 he with rfl | he
    · rw [Metadata.lookup_of_not_mem _ (List.nodup_cons.1 (nodup_keys_description q millis)).1]
      exact values_recordOf_of_mem List.mem_cons_self
    · rw [(lookup_eq_some_iff (List.nodup_cons.1 (nodup_keys_description q millis)).2).2 he]
  · intro k hk
    rw [values_writeProduct, Metadata.lookup_of_not_mem k
      (mt (fun h => (perm_keys_description q millis).mem_iff.1 (List.mem_cons_of_mem _ h)) hk)]
    exact values_recordOf_of_not_mem hk
  · exact regular_writeProduct (regular_recordOf hm p millis) q

/-- Metadata without reserved keys are merged into those of the record. -/
theorem merge_recordOf (hm : m.Regular) (other : Metadata) :
    (recordOf p millis m).merge (withoutReserved other) = recordOf p millis (m.merge other) := by
  apply eq_recordOf ((regular_recordOf hm p millis).merge _) (hm.merge other)
  · intro e he
    have hkey := (perm_keys_description p millis).mem_iff.1 (List.mem_map_of_mem he)
    rw [Metadata.values_merge, values_withoutReserved, if_pos hkey, values_recordOf_of_mem he]
    rfl
  · intro k hk
    rw [Metadata.values_merge, Metadata.values_merge, values_withoutReserved, if_neg hk,
      values_recordOf_of_not_mem hk]

/-- Values without reserved keys are removed from the metadata of the record. -/
theorem removeValues_recordOf (hm : m.Regular) (other : Metadata) :
    (recordOf p millis m).removeValues (withoutReserved other) =
      recordOf p millis (m.removeValues other) := by
  apply eq_recordOf ((regular_recordOf hm p millis).removeValues _) (hm.removeValues other)
  · intro e he
    have hkey := (perm_keys_description p millis).mem_iff.1 (List.mem_map_of_mem he)
    rw [Metadata.values_removeValues, values_withoutReserved, if_pos hkey,
      values_recordOf_of_mem he]
    rfl
  · intro k hk
    rw [Metadata.values_removeValues, Metadata.values_removeValues, values_withoutReserved,
      if_neg hk, values_recordOf_of_not_mem hk]

end Remote

end ArchiveCatalog
