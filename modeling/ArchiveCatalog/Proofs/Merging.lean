import ArchiveCatalog.Proofs.Metadata

namespace ArchiveCatalog.Metadata

/-! # Laws of merging

What a write leaves under a key depends on what was there and on what it brings for that key, so
the laws of merging are those of lists that grow by the values they lack. They hold of metadata
from outside as well, where lists may repeat values or be empty: a merge does not create a key
without a value, and a removal does not spare one.
-/

open ElementRegistry (appendNew)

/-! ## Lists that grow -/

section Growth

variable {xs ys : List String} {v : String}

theorem appendNew_of_mem (h : v ∈ xs) : appendNew xs v = xs := if_pos h

theorem appendNew_of_not_mem (h : v ∉ xs) : appendNew xs v = xs ++ [v] := if_neg h

/-- Values that are there already are not added. -/
theorem foldl_appendNew_of_subset (h : ∀ v ∈ ys, v ∈ xs) : ys.foldl appendNew xs = xs := by
  induction ys with
  | nil => rfl
  | cons v rest ih =>
    rw [List.foldl_cons, appendNew_of_mem (h v List.mem_cons_self)]
    exact ih fun w hw => h w (List.mem_cons_of_mem v hw)

/-- It makes no difference whether values are gathered before they are added. -/
theorem foldl_appendNew_assoc (xs ys zs : List String) :
    (zs.foldl appendNew ys).foldl appendNew xs = zs.foldl appendNew (ys.foldl appendNew xs) := by
  induction zs generalizing ys with
  | nil => rfl
  | cons v rest ih =>
    have hone : (appendNew ys v).foldl appendNew xs = appendNew (ys.foldl appendNew xs) v := by
      by_cases hv : v ∈ ys
      · rw [appendNew_of_mem hv, appendNew_of_mem (mem_foldl_appendNew.2 (.inr hv))]
      · rw [appendNew_of_not_mem hv, List.foldl_append]
        rfl
    rw [List.foldl_cons, ih, hone, List.foldl_cons]

/-- The values that are added follow those that were there, each once. -/
theorem exists_foldl_appendNew (xs ys : List String) :
    ∃ added, ys.foldl appendNew xs = xs ++ added ∧ added.Nodup ∧
      ∀ v, v ∈ added ↔ v ∈ ys ∧ v ∉ xs := by
  induction ys generalizing xs with
  | nil => exact ⟨[], (List.append_nil xs).symm, List.nodup_nil, by simp⟩
  | cons v rest ih =>
    rw [List.foldl_cons]
    by_cases hv : v ∈ xs
    · obtain ⟨added, hadded, hnodup, hmem⟩ := ih xs
      refine ⟨added, ?_, hnodup, ?_⟩
      · rw [appendNew_of_mem hv, hadded]
      · intro w
        rw [hmem, List.mem_cons]
        constructor
        · exact fun h => ⟨.inr h.1, h.2⟩
        · rintro ⟨rfl | hw, hnot⟩
          · exact absurd hv hnot
          · exact ⟨hw, hnot⟩
    · obtain ⟨added, hadded, hnodup, hmem⟩ := ih (xs ++ [v])
      have hfresh : v ∉ added := fun h => ((hmem v).1 h).2 (List.mem_append_right xs (by simp))
      refine ⟨v :: added, ?_, List.nodup_cons.2 ⟨hfresh, hnodup⟩, ?_⟩
      · rw [appendNew_of_not_mem hv, hadded, List.append_assoc]
        rfl
      · intro w
        by_cases hw : w = v
        · subst hw
          simp [hv]
        · simp [hmem, hw]

/-- A filter that lets none of the added values through gives what it gave before. -/
theorem filter_foldl_appendNew {test : String → Bool} (h : ∀ v ∈ ys, test v = false) :
    (ys.foldl appendNew xs).filter test = xs.filter test := by
  obtain ⟨added, hadded, -, hmem⟩ := exists_foldl_appendNew xs ys
  have hnone : added.filter test = [] := by
    rw [List.filter_eq_nil_iff]
    intro v hv
    rw [h v ((hmem v).1 hv).1]
    exact Bool.false_ne_true
  rw [hadded, List.filter_append, hnone, List.append_nil]

theorem foldl_appendNew_eq_nil_iff : ys.foldl appendNew xs = [] ↔ xs = [] ∧ ys = [] := by
  simp only [List.eq_nil_iff_forall_not_mem, mem_foldl_appendNew, not_or, forall_and]

end Growth

/-! ## What is stored after a write -/

variable {m a b : Metadata} {key k : String}

theorem get?_eq_some_values {v : String} (h : v ∈ m.values k) : m.get? k = some (m.values k) := by
  unfold values at h ⊢
  cases hget : m.get? k with
  | none => simp [hget] at h
  | some vs => rfl

theorem get?_add (v : String) :
    (m.add key v).get? k = if k = key then some (appendNew (m.values key) v) else m.get? k := by
  unfold add
  dsimp only
  by_cases hv : v ∈ m.values key
  · rw [if_pos hv, appendNew_of_mem hv]
    split
    · rename_i hk
      rw [hk, get?_eq_some_values hv]
    · rfl
  · rw [if_neg hv, appendNew_of_not_mem hv, get?_insert]

/-- What is stored when values are brought. Without any no key is created, and none is changed. -/
def grown (stored : Option (List String)) (brought : List String) : Option (List String) :=
  if brought = [] then stored else some (brought.foldl appendNew (stored.getD []))

theorem grown_nil (stored : Option (List String)) : grown stored [] = stored := if_pos rfl

theorem grown_cons (stored : Option (List String)) (v : String) (rest : List String) :
    grown (some (appendNew (stored.getD []) v)) rest = grown stored (v :: rest) := by
  unfold grown
  by_cases hrest : rest = []
  · simp [hrest]
  · simp [hrest]

theorem grown_grown (stored : Option (List String)) (xs ys : List String) :
    grown (grown stored xs) ys = grown stored (ys.foldl appendNew xs) := by
  by_cases hys : ys = []
  · rw [hys, grown_nil, List.foldl_nil]
  · have hgathered : ys.foldl appendNew xs ≠ [] := fun h => hys (foldl_appendNew_eq_nil_iff.1 h).2
    have hvalues : (grown stored xs).getD [] = xs.foldl appendNew (stored.getD []) := by
      by_cases hxs : xs = []
      · rw [hxs, grown_nil, List.foldl_nil]
      · rw [grown, if_neg hxs, Option.getD_some]
    rw [grown, if_neg hys, hvalues, grown, if_neg hgathered, foldl_appendNew_assoc]

theorem get?_addAll (vs : List String) :
    (m.addAll key vs).get? k = if k = key then grown (m.get? k) vs else m.get? k := by
  induction vs generalizing m with
  | nil =>
    rw [grown_nil, ite_self]
    rfl
  | cons v rest ih =>
    have hstep : m.addAll key (v :: rest) = (m.add key v).addAll key rest := rfl
    rw [hstep, ih, get?_add]
    by_cases hk : k = key
    · rw [if_pos hk, if_pos hk, if_pos hk, hk]
      exact grown_cons (m.get? key) v rest
    · rw [if_neg hk, if_neg hk, if_neg hk]

theorem get?_merge : (m.merge a).get? k = grown (m.get? k) (a.values k) := by
  have hone : ∀ (m : Metadata) (e : String × List String) (k : String),
      (m.addAll e.1 e.2).get? k = if k = e.1 then grown (m.get? e.1) e.2 else m.get? k := by
    intro m e k
    rw [get?_addAll]
    by_cases hk : k = e.1
    · rw [if_pos hk, if_pos hk, hk]
    · rw [if_neg hk, if_neg hk]
  unfold merge
  rw [read_foldl_entries m k get? _ grown hone _ a.ascend.nodup]
  -- a key that the other metadata lack is as good as one without values
  unfold values get?
  cases a.entries.lookup k with
  | none => exact (grown_nil _).symm
  | some vs => rfl

/-- What is left of values, if anything is. -/
def remaining (stored removed : List String) : Option (List String) :=
  let kept := stored.filter fun v => !removed.contains v
  if kept = [] then none else some kept

theorem get?_removeFrom (vs : List String) :
    (m.removeFrom key vs).get? k =
      if k = key then remaining (m.values key) vs else m.get? k := by
  unfold removeFrom remaining
  cases hget : m.get? key with
  | none =>
    have hnil : m.values key = [] := by simp [values, hget]
    rw [hnil]
    by_cases hk : k = key
    · rw [if_pos hk, hk]
      exact hget
    · exact (if_neg hk).symm
  | some stored =>
    have hstored : m.values key = stored := by simp [values, hget]
    rw [hstored]
    dsimp only
    by_cases hkept : (stored.filter fun v => !vs.contains v) = []
    · rw [if_pos (List.isEmpty_iff.2 hkept), if_pos hkept, get?_erase]
    · rw [if_neg (mt List.isEmpty_iff.1 hkept), if_neg hkept, get?_insert]

theorem get?_removeValues :
    (m.removeValues a).get? k =
      match a.get? k with
      | some removed => remaining (m.values k) removed
      | none => m.get? k := by
  unfold removeValues
  exact read_foldl_entries m k get? _ (fun stored removed => remaining (stored.getD []) removed)
    (fun m e k => get?_removeFrom e.2) _ a.ascend.nodup

/-! ## Laws -/

/-- What is merged is known by its values. -/
theorem merge_congr (h : ∀ k, a.values k = b.values k) : m.merge a = m.merge b :=
  ext_get? fun k => by rw [get?_merge, get?_merge, h]

theorem merge_assoc (m a b : Metadata) : (m.merge a).merge b = m.merge (a.merge b) := by
  apply ext_get?
  intro k
  rw [get?_merge, get?_merge, get?_merge, values_merge, grown_grown]

theorem merge_twice (m a : Metadata) : (m.merge a).merge a = m.merge a := by
  have hsame : ∀ k, (a.merge a).values k = a.values k := by
    intro k
    rw [values_merge, foldl_appendNew_of_subset fun _ hv => hv]
  rw [merge_assoc, merge_congr hsame]

theorem contains_merge :
    (m.merge a).contains k = true ↔ m.contains k = true ∨ a.values k ≠ [] := by
  unfold contains
  rw [get?_merge]
  by_cases hnil : a.values k = []
  · rw [hnil, grown_nil]
    simp
  · rw [grown, if_neg hnil]
    simp [hnil]

/-- What was merged is removed with the rest of the same values. -/
theorem removeValues_merge (m a : Metadata) :
    (m.merge a).removeValues a = m.removeValues a := by
  apply ext_get?
  intro k
  rw [get?_removeValues, get?_removeValues]
  cases hget : a.get? k with
  | none =>
    have hnil : a.values k = [] := by simp [values, hget]
    dsimp only
    rw [get?_merge, hnil, grown_nil]
  | some removed =>
    have hvalues : a.values k = removed := by simp [values, hget]
    have hnone : ∀ v ∈ removed, (!removed.contains v) = false := by simp
    dsimp only
    unfold remaining
    rw [values_merge, hvalues, filter_foldl_appendNew hnone]

/-- Fields may be listed in any order and more than once. -/
theorem reduce_congr {fields fields' : List String} (h : ∀ k, k ∈ fields ↔ k ∈ fields') :
    m.reduce fields = m.reduce fields' :=
  ext_get? fun k => by simp only [get?_reduce, h]

/-! ## Runs of writes -/

/-- A write on metadata. -/
inductive Write
  | add (key value : String)
  | addAll (key : String) (values : List String)
  | replace (key : String) (values : List String)
  | merge (other : Metadata)
  | removeValues (other : Metadata)
  | erase (key : String)
  | reduce (fields : List String)

/-- What the write makes of metadata. -/
def Write.on (m : Metadata) : Write → Metadata
  | .add key value => m.add key value
  | .addAll key values => m.addAll key values
  | .replace key values => m.replace key values
  | .merge other => m.merge other
  | .removeValues other => m.removeValues other
  | .erase key => m.erase key
  | .reduce fields => m.reduce fields

theorem Regular.on (h : m.Regular) (write : Write) : (write.on m).Regular := by
  cases write with
  | add key value => exact h.add key value
  | addAll key values => exact h.addAll key values
  | replace key values => exact h.replace key values
  | merge other => exact h.merge other
  | removeValues other => exact h.removeValues other
  | erase key => exact h.erase key
  | reduce fields => exact h.reduce fields

theorem Regular.foldl_on (h : m.Regular) (writes : List Write) :
    (writes.foldl Write.on m).Regular := by
  induction writes generalizing m with
  | nil => exact h
  | cons write rest ih => exact ih (h.on write)

/-- How the writes of metadata go together. -/
structure Laws (m a b : Metadata) : Prop where
  /-- The second of two merges is in vain. -/
  twice : (m.merge a).merge a = m.merge a
  assoc : (m.merge a).merge b = m.merge (a.merge b)
  /-- Under each key the values come first that were there, and then the others, each once. -/
  appended : ∀ k, ∃ added, (m.merge a).values k = m.values k ++ added ∧ added.Nodup ∧
    ∀ v, v ∈ added ↔ v ∈ a.values k ∧ v ∉ m.values k
  union : ∀ k v, v ∈ (m.merge a).values k ↔ v ∈ m.values k ∨ v ∈ a.values k
  /-- There are the keys that were there and those of merged values. -/
  keys : ∀ k, (m.merge a).contains k = true ↔ m.contains k = true ∨ a.values k ≠ []
  withdrawn : (m.merge a).removeValues a = m.removeValues a
  /-- Of the listed fields the same is stored, of others nothing. -/
  reduced : ∀ fields k, (m.reduce fields).get? k = if k ∈ fields then m.get? k else none
  anyOrder : ∀ fields fields', (∀ k, k ∈ fields ↔ k ∈ fields') → m.reduce fields = m.reduce fields'

/-- Metadata that are written step by step are regular, whatever the writes bring, and all metadata
obey the laws, regular or not. -/
theorem writes_obey_laws :
    (∀ writes : List Write, (writes.foldl Write.on empty).Regular) ∧
      ∀ m a b : Metadata, Laws m a b := by
  constructor
  · intro writes
    exact Regular.empty.foldl_on writes
  · intro m a b
    exact {
      twice := merge_twice m a
      assoc := merge_assoc m a b
      appended := fun k => by
        rw [values_merge]
        exact exists_foldl_appendNew (m.values k) (a.values k)
      union := fun k v => by rw [values_merge, mem_foldl_appendNew]
      keys := fun _ => contains_merge
      withdrawn := removeValues_merge m a
      reduced := fun fields k => get?_reduce m k fields
      anyOrder := fun _ _ => reduce_congr }

end ArchiveCatalog.Metadata
