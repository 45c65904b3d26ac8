namespace ArchiveCatalog

/-! # Metadata

Metadata maps element names to lists of values. Keys stand in ascending order, each once;
adding a value that is already there changes nothing, so merging twice is merging once.
Lists that come from outside may be empty or repeat values.
-/

/-- Entries in ascending order of their keys, each key once. -/
def KeysAscend (entries : List (String × List String)) : Prop :=
  entries.Pairwise fun a b => a.1 < b.1

/-- Puts an entry at its place, replacing one with the same key. -/
def insertEntry (key : String) (values : List String) :
    List (String × List String) → List (String × List String)
  | [] => [(key, values)]
  | entry :: rest =>
    if key < entry.1 then (key, values) :: entry :: rest
    else if key = entry.1 then (key, values) :: rest
    else entry :: insertEntry key values rest

theorem mem_insertEntry {key : String} {values : List String} {e : String × List String}
    {entries : List (String × List String)} (h : e ∈ insertEntry key values entries) :
    e = (key, values) ∨ e ∈ entries := by
  induction entries with
  | nil => simpa [insertEntry] using h
  | cons entry rest ih =>
    unfold insertEntry at h
    split at h
    · simpa using h
    · split at h
      · rcases List.mem_cons.1 h with h | h
        · exact Or.inl h
        · exact Or.inr (List.mem_cons_of_mem _ h)
      · rcases List.mem_cons.1 h with h | h
        · exact Or.inr (h ▸ List.mem_cons_self)
        · exact (ih h).imp_right (List.mem_cons_of_mem _)

theorem KeysAscend.insertEntry {entries : List (String × List String)} (h : KeysAscend entries)
    (key : String) (values : List String) : KeysAscend (insertEntry key values entries) := by
  induction entries with
  | nil => simp [KeysAscend, ArchiveCatalog.insertEntry]
  | cons entry rest ih =>
    obtain ⟨below, tail⟩ := List.pairwise_cons.1 h
    unfold ArchiveCatalog.insertEntry
    split
    · rename_i lt
      refine List.pairwise_cons.2 ⟨fun e he => ?_, h⟩
      rcases List.mem_cons.1 he with rfl | he
      · exact lt
      · exact String.lt_trans lt (below e he)
    · split
      · rename_i eq
        subst eq
        exact List.pairwise_cons.2 ⟨below, tail⟩
      · rename_i nlt ne
        refine List.pairwise_cons.2 ⟨fun e he => ?_, ih tail⟩
        rcases mem_insertEntry he with rfl | he
        · exact Std.lt_of_le_of_ne (String.not_lt.1 nlt) (Ne.symm ne)
        · exact below e he

/-- Element names with their values. -/
structure Metadata where
  entries : List (String × List String)
  ascend : KeysAscend entries
  deriving DecidableEq

namespace Metadata

instance : Repr Metadata := ⟨fun m n => reprPrec m.entries n⟩

/-- No element at all. -/
def empty : Metadata := ⟨[], List.Pairwise.nil⟩

instance : Inhabited Metadata := ⟨empty⟩

/-! ## Reading -/

/-- The values stored under a key. -/
def get? (m : Metadata) (key : String) : Option (List String) := m.entries.lookup key

/-- The values stored under a key, none for a key that is not there. -/
def values (m : Metadata) (key : String) : List String := (m.get? key).getD []

/-- The first value stored under a key. -/
def first? (m : Metadata) (key : String) : Option String := (m.get? key).bind List.head?

/-- The key is there, perhaps without values. -/
def contains (m : Metadata) (key : String) : Bool := (m.get? key).isSome

/-- The keys in ascending order. -/
def keys (m : Metadata) : List String := m.entries.map Prod.fst

/-- The number of keys. -/
def size (m : Metadata) : Nat := m.entries.length

/-- There is no key. -/
def isEmpty (m : Metadata) : Bool := m.entries.isEmpty

/-! ## Writing -/

/-- Stores exactly these values under a key, unchecked. -/
def insert (m : Metadata) (key : String) (values : List String) : Metadata :=
  ⟨insertEntry key values m.entries, m.ascend.insertEntry key values⟩

/-- Metadata from pairs of a key and its values; a later pair replaces an earlier one. -/
def ofEntries (entries : List (String × List String)) : Metadata :=
  entries.foldl (fun m e => m.insert e.1 e.2) empty

/-- Removes a key. -/
def erase (m : Metadata) (key : String) : Metadata :=
  ⟨m.entries.filter fun e => e.1 != key, m.ascend.filter _⟩

/-- Appends a value unless the key already has it. -/
def add (m : Metadata) (key value : String) : Metadata :=
  let stored := m.values key
  if value ∈ stored then m else m.insert key (stored ++ [value])

/-- Adds values one after the other. -/
def addAll (m : Metadata) (key : String) (values : List String) : Metadata :=
  values.foldl (fun m value => m.add key value) m

/-- Forgets what is stored under a key and adds these values. -/
def replace (m : Metadata) (key : String) (values : List String) : Metadata :=
  (m.erase key).addAll key values

/-- Adds every value of another metadata. -/
def merge (m other : Metadata) : Metadata :=
  other.entries.foldl (fun m e => m.addAll e.1 e.2) m

/-- Removes the listed values of one key; a key left without values goes. -/
def removeFrom (m : Metadata) (key : String) (values : List String) : Metadata :=
  match m.get? key with
  | none => m
  | some stored =>
    let kept := stored.filter fun v => !values.contains v
    if kept.isEmpty then m.erase key else m.insert key kept

/-- Removes every value of another metadata. -/
def removeValues (m other : Metadata) : Metadata :=
  other.entries.foldl (fun m e => m.removeFrom e.1 e.2) m

/-- Removes several keys. -/
def eraseAll (m : Metadata) (keys : List String) : Metadata := keys.foldl erase m

/-- The entries of the listed fields. -/
def reduce (m : Metadata) (fields : List String) : Metadata :=
  fields.foldl (fun acc field =>
    match m.get? field with
    | none => acc
    | some values => acc.insert field values) empty

/-- Metadata from single pairs, added in order. -/
def ofPairs (pairs : List (String × String)) : Metadata :=
  pairs.foldl (fun m p => m.add p.1 p.2) empty

end Metadata

end ArchiveCatalog
