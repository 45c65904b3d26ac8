import ArchiveCatalog.Schema.Registry
import Mathlib.Data.List.Nodup
import Mathlib.Data.List.Perm.Basic

namespace ArchiveCatalog

/-! # What is stored under a key

Metadata are known by what is stored under each key. Adding appends a value that is new,
so values added to nothing stand once each in the order of their first arrival, and metadata
that are `Regular` are told apart by their values alone.
-/

/-! ## Entries -/

theorem lookup_cons_ite {κ α : Type} [DecidableEq κ] (key k : κ) (a : α) (rest : List (κ × α)) :
    ((key, a) :: rest).lookup k = if k = key then some a else rest.lookup k := by
  by_cases h : k = key
  · simp [h]
  · have hne : (k == key) = false := by simpa using h
    simp [List.lookup_cons, hne, h]

theorem lookup_insertEntry (key : String) (values : List String)
    (entries : List (String × List String)) (k : String) :
    (insertEntry key values entries).lookup k =
      if k = key then some values else entries.lookup k := by
  induction entries with
  | nil => simp [insertEntry, lookup_cons_ite]
  | cons entry rest ih =>
    rcases entry with ⟨key', values'⟩
    -- the new entry goes in before, in place of or after the first one
    by_cases hk : k = key'
    · subst hk
      rw [insertEntry]
      split
      · simp [lookup_cons_ite]
      · split
        · simp_all
        · rename_i hne
          simp [Ne.symm hne]
    · rw [insertEntry]
      split
      · simp [lookup_cons_ite]
      · split
        · simp_all [lookup_cons_ite]
        · simp [lookup_cons_ite, hk, ih]

theorem lookup_filter_ne {α : Type} (key : String) (entries : List (String × α)) (k : String) :
    (entries.filter fun e => e.1 != key).lookup k =
      if k = key then none else entries.lookup k := by
  induction entries with
  | nil => simp
  | cons entry rest ih =>
    rcases entry with ⟨key', values'⟩
    by_cases h : key' = key
    · subst h
      by_cases hk : k = key' <;> simpa [hk, lookup_cons_ite] using ih
    · by_cases hk : k = key'
      · subst hk
        simp [h]
      · simp [h, hk, lookup_cons_ite, ih]

theorem KeysAscend.nodup {entries : List (String × List String)} (h : KeysAscend entries) :
    (entries.map Prod.fst).Nodup := by
  have hlt : entries.Pairwise fun a b => a.1 < b.1 := h
  rw [List.Nodup, List.pairwise_map]
  apply hlt.imp
  intro a b hab heq
  exact String.lt_irrefl _ (heq ▸ hab)

/-- With each key once, an entry is found under its key. -/
theorem lookup_eq_some_iff {α : Type} {entries : List (String × α)}
    (h : (entries.map Prod.fst).Nodup) {key : String} {a : α} :
    entries.lookup key = some a ↔ (key, a) ∈ entries := by
  induction entries with
  | nil => simp
  | cons entry rest ih =>
    rcases entry with ⟨key', a'⟩
    rw [List.map_cons, List.nodup_cons] at h
    by_cases hk : key = key'
    · subst hk
      have hout : (key, a) ∉ rest := fun hm => h.1 (List.mem_map.2 ⟨_, hm, rfl⟩)
      simp [hout, eq_comm]
    · simp [lookup_cons_ite, hk, ih h.2]

namespace Metadata

/-! ## Look-ups -/

variable (m : Metadata) (key k : String)

theorem mem_entries_iff {m : Metadata} {key : String} {vs : List String} :
    (key, vs) ∈ m.entries ↔ m.get? key = some vs :=
  (lookup_eq_some_iff m.ascend.nodup).symm

theorem get?_empty : empty.get? k = none := rfl

theorem values_empty : empty.values k = [] := rfl

theorem get?_insert (vs : List String) :
    (m.insert key vs).get? k = if k = key then some vs else m.get? k :=
  lookup_insertEntry key vs m.entries k

theorem get?_erase : (m.erase key).get? k = if k = key then none else m.get? k :=
  lookup_filter_ne key m.entries k

theorem values_insert (vs : List String) :
    (m.insert key vs).values k = if k = key then vs else m.values k := by
  unfold values
  rw [get?_insert]
  split <;> rfl

theorem values_erase : (m.erase key).values k = if k = key then [] else m.values k := by
  unfold values
  rw [get?_erase]
  split <;> rfl

/-- Metadata are known by what is stored under each key. -/
theorem ext_get? {m n : Metadata} (h : ∀ k, m.get? k = n.get? k) : m = n := by
  have hperm : m.entries.Perm n.entries := by
    apply (List.perm_ext_iff_of_nodup m.ascend.nodup.of_map n.ascend.nodup.of_map).2
    rintro ⟨key, vs⟩
    rw [mem_entries_iff, mem_entries_iff, h]
  -- entries in the order of their keys are the same as soon as they are the same in some order
  have heq : m.entries = n.entries :=
    hperm.eq_of_pairwise
      (fun a b _ _ hab hba => absurd (String.lt_trans hab hba) (String.lt_irrefl _))
      m.ascend n.ascend
  cases m
  cases n
  simp_all

/-- The keys have the same values, in whatever order and however often. -/
def SameValues (m n : Metadata) : Prop := ∀ key v, v ∈ m.values key ↔ v ∈ n.values key

/-- A test of single values can not tell lists with the same members apart. -/
theorem any_congr_mem {xs ys : List String} (h : ∀ v, v ∈ xs ↔ v ∈ ys) (test : String → Bool) :
    xs.any test = ys.any test := by
  rw [Bool.eq_iff_iff, List.any_eq_true, List.any_eq_true]
  exact exists_congr fun v => and_congr_left' (h v)

/-! ## Adding -/

open ElementRegistry (appendNew)

theorem mem_foldl_appendNew {values added : List String} {v : String} :
    v ∈ added.foldl appendNew values ↔ v ∈ values ∨ v ∈ added := by
  induction added generalizing values with
  | nil => simp
  | cons w rest ih =>
    have hone : v ∈ appendNew values w ↔ v ∈ values ∨ v = w := by
      unfold appendNew
      split
      · rename_i hw
        exact ⟨.inl, fun h => h.elim id fun heq => heq ▸ hw⟩
      · simp
    rw [List.foldl_cons, ih, hone, List.mem_cons, or_assoc]

theorem nodup_appendNew {values : List String} {v : String} (h : values.Nodup) :
    (appendNew values v).Nodup := by
  unfold appendNew
  split
  · exact h
  · rename_i hv
    exact List.nodup_append.2 ⟨h, by simp, fun a ha b hb heq =>
      hv (by rw [List.mem_singleton] at hb; rw [← hb, ← heq]; exact ha)⟩

theorem nodup_foldl_appendNew {values : List String} (added : List String) (h : values.Nodup) :
    (added.foldl appendNew values).Nodup := by
  induction added generalizing values with
  | nil => exact h
  | cons v rest ih => exact ih (nodup_appendNew h)

/-- Values that are all new are appended as they are. -/
theorem foldl_appendNew_of_nodup {values added : List String} (h : (values ++ added).Nodup) :
    added.foldl appendNew values = values ++ added := by
  induction added generalizing values with
  | nil => simp
  | cons v rest ih =>
    -- the first value is new, and the others are new after it as well
    have hv : v ∉ values := fun hm =>
      (List.nodup_append.1 h).2.2 v hm v List.mem_cons_self rfl
    have hone : appendNew values v = values ++ [v] := by simp [appendNew, hv]
    rw [List.foldl_cons, hone, ih (by simpa using h)]
    simp

theorem values_add (v : String) :
    (m.add key v).values k = if k = key then appendNew (m.values key) v else m.values k := by
  unfold add appendNew
  by_cases hv : v ∈ m.values key
  · by_cases hk : k = key <;> simp [hv, hk]
  · simp [hv, values_insert]

theorem values_addAll (vs : List String) :
    (m.addAll key vs).values k =
      if k = key then vs.foldl appendNew (m.values key) else m.values k := by
  induction vs generalizing m with
  | nil => by_cases hk : k = key <;> simp [addAll, hk]
  | cons v rest ih =>
    have hstep : m.addAll key (v :: rest) = (m.add key v).addAll key rest := rfl
    rw [hstep, ih]
    by_cases hk : k = key
    · simp [hk, values_add]
    · simp [hk, values_add]

/-! ## Merging, removing and reducing -/

theorem lookup_of_not_mem {α : Type} {entries : List (String × α)}
    (h : k ∉ entries.map Prod.fst) : entries.lookup k = none :=
  List.lookup_eq_none_iff.2 fun e he => by
    simpa using fun heq : k = e.1 => h (heq ▸ List.mem_map_of_mem he)

/-- A write that works through entries with different keys does to what is read under each key
what it does for the entry of that key. -/
theorem read_foldl_entries {α : Type} (read : Metadata → String → α)
    (write : Metadata → String × List String → Metadata) (change : α → List String → α)
    (hwrite : ∀ m e k, read (write m e) k = if k = e.1 then change (read m e.1) e.2 else read m k)
    (entries : List (String × List String)) (h : (entries.map Prod.fst).Nodup) :
    read (entries.foldl write m) k =
      match entries.lookup k with
      | some vs => change (read m k) vs
      | none => read m k := by
  induction entries generalizing m with
  | nil => rfl
  | cons entry rest ih =>
    rcases entry with ⟨key, vs⟩
    rw [List.map_cons, List.nodup_cons] at h
    rw [List.foldl_cons, ih _ h.2, lookup_cons_ite]
    -- the keys of the rest are others, so the first entry is the only one for its key
    by_cases hk : k = key
    · subst hk
      simp [lookup_of_not_mem _ h.1, hwrite]
    · simp [hk, hwrite]

theorem values_foldl_addAll (entries : List (String × List String))
    (h : (entries.map Prod.fst).Nodup) :
    (entries.foldl (fun m e => m.addAll e.1 e.2) m).values k =
      ((entries.lookup k).getD []).foldl appendNew (m.values k) := by
  rw [read_foldl_entries m k values _ (fun stored vs => vs.foldl appendNew stored)
    (fun m e k => values_addAll m e.1 k e.2) _ h]
  cases entries.lookup k <;> rfl

theorem values_merge (other : Metadata) :
    (m.merge other).values k = (other.values k).foldl appendNew (m.values k) :=
  values_foldl_addAll m k other.entries other.ascend.nodup

theorem values_removeFrom (vs : List String) :
    (m.removeFrom key vs).values k =
      if k = key then (m.values key).filter (fun v => !vs.contains v) else m.values k := by
  unfold removeFrom
  cases hget : m.get? key with
  | none =>
    have hnil : m.values key = [] := by simp [values, hget]
    by_cases hk : k = key <;> simp [hk, hnil]
  | some stored =>
    have hstored : m.values key = stored := by simp [values, hget]
    dsimp only
    -- a key without values left goes, which makes no difference to its values
    split
    · rename_i hempty
      rw [List.isEmpty_iff] at hempty
      rw [values_erase, hstored, hempty]
    · rw [values_insert, hstored]

theorem values_removeValues (other : Metadata) :
    (m.removeValues other).values k =
      (m.values k).filter fun v => !(other.values k).contains v := by
  unfold removeValues
  rw [read_foldl_entries m k values _ (fun stored vs => stored.filter fun v => !vs.contains v)
    (fun m e k => values_removeFrom m e.1 k e.2) _ other.ascend.nodup]
  unfold values get?
  cases other.entries.lookup k <;> simp

/-- One step of `reduce`, which carries over what is stored under a field. -/
def carry (m acc : Metadata) (field : String) : Metadata :=
  match m.get? field with
  | none => acc
  | some values => acc.insert field values

theorem get?_carry (acc : Metadata) (field : String) :
    (m.carry acc field).get? k =
      if k = field ∧ (m.get? k).isSome then m.get? k else acc.get? k := by
  unfold carry
  by_cases hk : k = field
  · subst hk
    cases hget : m.get? k with
    | none => simp
    | some vs => simp [get?_insert]
  · cases hget : m.get? field with
    | none => simp [hk]
    | some vs => simp [hk, get?_insert]

theorem get?_foldl_carry (fields : List String) (acc : Metadata) :
    (fields.foldl m.carry acc).get? k =
      if k ∈ fields ∧ (m.get? k).isSome then m.get? k else acc.get? k := by
  induction fields generalizing acc with
  | nil => simp
  | cons field rest ih =>
    rw [List.foldl_cons, ih, get?_carry]
    simp only [List.mem_cons]
    split_ifs <;> tauto

theorem get?_reduce (fields : List String) :
    (m.reduce fields).get? k = if k ∈ fields then m.get? k else none := by
  have hfold : (m.reduce fields).get? k = _ := get?_foldl_carry m k fields Metadata.empty
  rw [hfold, get?_empty]
  by_cases hk : k ∈ fields <;> cases hget : m.get? k <;> simp [hk]

theorem values_reduce (fields : List String) :
    (m.reduce fields).values k = if k ∈ fields then m.values k else [] := by
  unfold values
  rw [get?_reduce]
  split <;> rfl

/-! ## Regular metadata -/

/-- Every key has a value and no value twice, as in all metadata built by adding. -/
def Regular (m : Metadata) : Prop := ∀ k vs, m.get? k = some vs → vs ≠ [] ∧ vs.Nodup

theorem Regular.empty : Regular Metadata.empty := fun _ _ h => by simp [get?_empty] at h

theorem Regular.get?_eq {m : Metadata} (h : m.Regular) :
    m.get? k = if m.values k = [] then none else some (m.values k) := by
  unfold values
  cases hget : m.get? k with
  | none => simp
  | some vs => simp [(h k vs hget).1]

theorem Regular.nodup_values {m : Metadata} (h : m.Regular) : (m.values k).Nodup := by
  unfold values
  cases hget : m.get? k with
  | none => simp
  | some vs => simpa using (h k vs hget).2

/-- Regular metadata are known by their values. -/
theorem Regular.ext {m n : Metadata} (hm : m.Regular) (hn : n.Regular)
    (h : ∀ k, m.values k = n.values k) : m = n :=
  ext_get? fun k => by rw [hm.get?_eq, hn.get?_eq, h]

theorem Regular.insert {m : Metadata} (h : m.Regular) {vs : List String} (hne : vs ≠ [])
    (hnodup : vs.Nodup) : (m.insert key vs).Regular := by
  intro k ws hget
  rw [get?_insert] at hget
  split at hget
  · cases hget
    exact ⟨hne, hnodup⟩
  · exact h k ws hget

theorem Regular.erase {m : Metadata} (h : m.Regular) : (m.erase key).Regular := by
  intro k ws hget
  rw [get?_erase] at hget
  split at hget
  · cases hget
  · exact h k ws hget

theorem Regular.add {m : Metadata} (h : m.Regular) (v : String) : (m.add key v).Regular := by
  unfold Metadata.add
  dsimp only
  split
  · exact h
  · rename_i hv
    have hnew : appendNew (m.values key) v = m.values key ++ [v] := by simp [appendNew, hv]
    exact h.insert key (by simp) (hnew ▸ nodup_appendNew (h.nodup_values key))

theorem Regular.addAll {m : Metadata} (h : m.Regular) (vs : List String) :
    (m.addAll key vs).Regular := by
  induction vs generalizing m with
  | nil => exact h
  | cons v rest ih => exact ih (h.add key v)

theorem Regular.replace {m : Metadata} (h : m.Regular) (vs : List String) :
    (m.replace key vs).Regular := (h.erase key).addAll key vs

theorem Regular.foldl_addAll {m : Metadata} (h : m.Regular)
    (entries : List (String × List String)) :
    (entries.foldl (fun m e => m.addAll e.1 e.2) m).Regular := by
  induction entries generalizing m with
  | nil => exact h
  | cons e rest ih => exact ih (h.addAll e.1 e.2)

theorem Regular.merge {m : Metadata} (h : m.Regular) (other : Metadata) :
    (m.merge other).Regular := h.foldl_addAll other.entries

theorem Regular.removeFrom {m : Metadata} (h : m.Regular) (vs : List String) :
    (m.removeFrom key vs).Regular := by
  unfold Metadata.removeFrom
  cases hget : m.get? key with
  | none => exact h
  | some stored =>
    dsimp only
    split
    · exact h.erase key
    · rename_i hne
      exact h.insert key (by simpa using hne) ((h key stored hget).2.filter _)

theorem Regular.removeValues {m : Metadata} (h : m.Regular) (other : Metadata) :
    (m.removeValues other).Regular := by
  unfold Metadata.removeValues
  induction other.entries generalizing m with
  | nil => exact h
  | cons e rest ih => exact ih (h.removeFrom e.1 e.2)

theorem Regular.reduce {m : Metadata} (h : m.Regular) (fields : List String) :
    (m.reduce fields).Regular := by
  intro k vs hget
  rw [get?_reduce] at hget
  split at hget
  · exact h k vs hget
  · cases hget

theorem removeValues_empty (other : Metadata) : empty.removeValues other = empty :=
  (Regular.empty.removeValues other).ext .empty fun k => values_removeValues empty k other

/-- Only listed keys have values. -/
def Within (m : Metadata) (names : List String) : Prop := ∀ k, m.values k ≠ [] → k ∈ names

theorem Within.empty (names : List String) : Within .empty names :=
  fun k h => absurd (values_empty k) h

theorem Within.values_eq_nil {m : Metadata} {names : List String} (h : m.Within names)
    (hk : k ∉ names) : m.values k = [] := by
  by_contra hne
  exact hk (h k hne)

theorem Within.reduce (fields : List String) : (m.reduce fields).Within fields := by
  intro k hk
  rw [values_reduce] at hk
  by_contra hout
  exact hk (if_neg hout)

theorem Within.merge {m other : Metadata} {names : List String} (h : m.Within names)
    (hother : other.Within names) : (m.merge other).Within names := by
  intro k hk
  by_contra hout
  exact hk (by rw [values_merge, h.values_eq_nil k hout, hother.values_eq_nil k hout]; rfl)

theorem Within.removeValues {m : Metadata} {names : List String} (h : m.Within names)
    (other : Metadata) : (m.removeValues other).Within names := by
  intro k hk
  by_contra hout
  exact hk (by rw [values_removeValues, h.values_eq_nil k hout]; rfl)

/-! ## Metadata from pairs -/

theorem values_ofPairs (pairs : List (String × String)) :
    (ofPairs pairs).values k =
      ((pairs.filter (·.1 == k)).map Prod.snd).foldl appendNew [] := by
  -- metadata built so far have to vary for the induction on the pairs
  have hfold : ∀ m : Metadata, (pairs.foldl (fun m p => m.add p.1 p.2) m).values k =
      ((pairs.filter (·.1 == k)).map Prod.snd).foldl appendNew (m.values k) := by
    induction pairs with
    | nil => intro m; rfl
    | cons p rest ih =>
      intro m
      rw [List.foldl_cons, ih, values_add]
      by_cases hk : k = p.1
      · simp [hk]
      · have hne : (p.1 == k) = false := by simpa using Ne.symm hk
        simp [hk, hne]
  exact hfold Metadata.empty

theorem Regular.ofPairs (pairs : List (String × String)) : (ofPairs pairs).Regular := by
  have hfold : ∀ m : Metadata, m.Regular →
      (pairs.foldl (fun m p => m.add p.1 p.2) m).Regular := by
    induction pairs with
    | nil => exact fun _ h => h
    | cons p rest ih => exact fun m h => ih _ (h.add p.1 p.2)
  exact hfold _ Regular.empty

/-- The pairs of a key and a value, in the order of the entries. -/
def pairs (m : Metadata) : List (String × String) :=
  m.entries.flatMap fun e => e.2.map fun v => (e.1, v)

theorem mem_pairs {m : Metadata} {key v : String} : (key, v) ∈ m.pairs ↔ v ∈ m.values key := by
  unfold pairs values
  simp only [List.mem_flatMap, List.mem_map, Prod.mk.injEq]
  constructor
  · rintro ⟨e, he, w, hw, rfl, rfl⟩
    rw [mem_entries_iff.1 he]
    exact hw
  · intro hv
    cases hget : m.get? key with
    | none => simp [hget] at hv
    | some vs => exact ⟨(key, vs), mem_entries_iff.2 hget, v, by simpa [hget] using hv, rfl, rfl⟩

theorem filter_pairs_of_nodup (entries : List (String × List String))
    (h : (entries.map Prod.fst).Nodup) :
    (((entries.flatMap fun e => e.2.map fun v => (e.1, v)).filter (·.1 == k)).map Prod.snd) =
      (entries.lookup k).getD [] := by
  induction entries with
  | nil => rfl
  | cons entry rest ih =>
    rcases entry with ⟨key, vs⟩
    rw [List.map_cons, List.nodup_cons] at h
    rw [List.flatMap_cons, List.filter_append, List.map_append, ih h.2, lookup_cons_ite]
    -- all pairs of a key come from one entry, whose key does not occur again
    by_cases hk : k = key
    · subst hk
      simp [lookup_of_not_mem _ h.1, List.filter_map, Function.comp_def]
    · have hne : (key == k) = false := by simpa using Ne.symm hk
      simp [hk, List.filter_map, Function.comp_def, hne]

/-- Regular metadata are given back by their pairs. -/
theorem ofPairs_pairs {m : Metadata} (h : m.Regular) : Metadata.ofPairs m.pairs = m := by
  apply (Regular.ofPairs _).ext h
  intro k
  rw [values_ofPairs, pairs, filter_pairs_of_nodup k _ m.ascend.nodup]
  show (m.values k).foldl appendNew [] = m.values k
  rw [foldl_appendNew_of_nodup (by simpa using h.nodup_values k), List.nil_append]

end Metadata

end ArchiveCatalog
