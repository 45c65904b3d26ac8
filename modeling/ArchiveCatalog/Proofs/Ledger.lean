import Mathlib.Data.List.Nodup
import ArchiveCatalog.Proofs.History
import ArchiveCatalog.Proofs.Window
import ArchiveCatalog.Schema.Lookup

namespace ArchiveCatalog

/-! # Ledgers

A ledger is a catalog in its plainest form: a list with one entry for each registered
product. What catalogs differ in, the ids they give, the entries that reads see and what a
query asks of metadata, are the rules of the ledger. Ways of storing catalogs are measured
against it.
-/

/-- A registered product, the time it was given, and its metadata as far as there were any. -/
structure Entry (κ : Type) where
  key : κ
  product : Product
  millis : Int
  metadata : Option Metadata
  deriving DecidableEq

namespace Entry

variable {κ : Type}

/-- The metadata as they are read. -/
def shown (e : Entry κ) : Metadata := e.metadata.getD .empty

end Entry

/-- The rules of a ledger whose entries have keys of a type. -/
structure Ledger (κ : Type) where
  schema : Schema
  pageSize : Nat
  /-- The key that an id stands for. -/
  locate : String → Except CatalogError κ
  /-- The id of a key. -/
  spell : κ → String
  /-- The key of a new product, given how many there were before it. -/
  assign : Registration → Nat → Except CatalogError κ
  /-- The metadata of a new product. -/
  initial : Option Metadata
  /-- Reads see the entry. -/
  sees : Entry κ → Bool
  /-- The first entry is answered before the second or is the same. -/
  precedes : Entry κ → Entry κ → Bool
  /-- The metadata satisfy the query. -/
  satisfies : Query → Metadata → Bool

/-- How many products were ever registered, and the entries of those that are left. -/
structure LedgerState (κ : Type) where
  registered : Nat
  entries : List (Entry κ)
  deriving DecidableEq

namespace LedgerState

variable {κ : Type} [DecidableEq κ]

/-- No product was ever registered. -/
def empty : LedgerState κ := ⟨0, []⟩

/-- The entry of a key. -/
def find? (st : LedgerState κ) (key : κ) : Option (Entry κ) := st.entries.find? (·.key = key)

/-- Adds an entry. -/
def append (st : LedgerState κ) (e : Entry κ) : LedgerState κ :=
  ⟨st.registered + 1, st.entries ++ [e]⟩

/-- Puts an entry in place of the one with its key. -/
def put (st : LedgerState κ) (e : Entry κ) : LedgerState κ :=
  { st with entries := st.entries.map fun old => if old.key = e.key then e else old }

/-- Removes the entry of a key. -/
def erase (st : LedgerState κ) (key : κ) : LedgerState κ :=
  { st with entries := st.entries.filter (·.key ≠ key) }

variable {st : LedgerState κ} {e old : Entry κ} {key other : κ}

theorem mem_of_find? (h : st.find? key = some e) : e ∈ st.entries ∧ e.key = key :=
  ⟨List.mem_of_find?_eq_some h, by simpa using List.find?_some h⟩

/-- With different keys an entry is found under its own. -/
theorem find?_eq_of_mem (hkeys : (st.entries.map Entry.key).Nodup) (he : e ∈ st.entries) :
    st.find? e.key = some e := by
  cases hfound : st.find? e.key with
  | none => simpa using List.find?_eq_none.1 hfound e he
  | some found =>
    rcases mem_of_find? hfound with ⟨hmem, hkey⟩
    rw [List.inj_on_of_nodup_map hkeys hmem he hkey]

theorem keys_put : (st.put e).entries.map Entry.key = st.entries.map Entry.key := by
  rw [put, List.map_map]
  apply List.map_congr_left
  intro entry _
  dsimp only [Function.comp]
  split
  · rename_i hkey
    exact hkey.symm
  · rfl

theorem mem_put {entry : Entry κ} (h : entry ∈ (st.put e).entries) :
    entry = e ∨ entry ∈ st.entries := by
  rcases List.mem_map.1 h with ⟨before, hbefore, rfl⟩
  split
  · exact .inl rfl
  · exact .inr hbefore

theorem forall_mem_put {P : Entry κ → Prop} (h : ∀ entry ∈ st.entries, P entry) (he : P e) :
    ∀ entry ∈ (st.put e).entries, P entry := by
  intro entry hentry
  rcases mem_put hentry with rfl | hbefore
  · exact he
  · exact h entry hbefore

theorem find?_put (hkeys : (st.entries.map Entry.key).Nodup) (hfound : st.find? e.key = some old) :
    (st.put e).find? other = if other = e.key then some e else st.find? other := by
  rcases mem_of_find? hfound with ⟨hold, hkey⟩
  split
  · rename_i hother
    have hput : e ∈ (st.put e).entries := List.mem_map.2 ⟨old, hold, if_pos hkey⟩
    have hkeys' : ((st.put e).entries.map Entry.key).Nodup := by rwa [keys_put]
    rw [hother]
    exact find?_eq_of_mem hkeys' hput
  · rename_i hother
    -- the search for another key does not notice which entry stands under this one
    have hsame : ((fun entry : Entry κ => decide (entry.key = other)) ∘ fun entry =>
        if entry.key = e.key then e else entry) = fun entry => decide (entry.key = other) := by
      funext entry
      dsimp only [Function.comp]
      split
      · rename_i hentry
        rw [hentry]
      · rfl
    unfold find? put
    dsimp only
    rw [List.find?_map, hsame]
    cases hlast : st.entries.find? fun entry => decide (entry.key = other) with
    | none => rfl
    | some entry =>
      have hentry : entry.key = other := by simpa using List.find?_some hlast
      have hkept : entry.key ≠ e.key := hentry ▸ hother
      rw [Option.map_some, if_neg hkept]

/-- Putting an entry takes out the one with its key. -/
theorem perm_put (hkeys : (st.entries.map Entry.key).Nodup) (hfound : st.find? e.key = some old) :
    (st.put e).entries.Perm (st.entries.filter (·.key ≠ e.key) ++ [e]) := by
  rcases mem_of_find? hfound with ⟨hold, hkey⟩
  rcases List.append_of_mem hold with ⟨before, after, hsplit⟩
  have hput : ∀ part : List (Entry κ), (∀ entry ∈ part, entry.key ≠ e.key) →
      (part.map fun entry => if entry.key = e.key then e else entry) = part ∧
        part.filter (·.key ≠ e.key) = part := by
    intro part hpart
    refine ⟨?_, List.filter_eq_self.2 fun entry hentry => by simpa using hpart entry hentry⟩
    conv => rhs; rw [← List.map_id part]
    exact List.map_congr_left fun entry hentry => if_neg (hpart entry hentry)
  -- around the entry that is put no other has its key
  rw [hsplit, List.map_append, List.map_cons, List.nodup_append, List.nodup_cons] at hkeys
  rcases hkeys with ⟨-, ⟨hafter, -⟩, hbefore⟩
  have hbefore' : ∀ entry ∈ before, entry.key ≠ e.key := fun entry hentry =>
    hkey ▸ hbefore _ (List.mem_map_of_mem hentry) _ List.mem_cons_self
  have hafter' : ∀ entry ∈ after, entry.key ≠ e.key := fun entry hentry hsame =>
    hafter (hkey ▸ hsame ▸ List.mem_map_of_mem hentry)
  unfold put
  dsimp only
  rw [hsplit, List.map_append, List.map_cons, if_pos hkey, (hput before hbefore').1,
    (hput after hafter').1, List.filter_append, List.filter_cons_of_neg (by simpa using hkey),
    (hput before hbefore').2, (hput after hafter').2]
  exact List.perm_middle.trans (List.perm_append_singleton e (before ++ after)).symm

omit [DecidableEq κ] in
theorem forall_mem_append {P : Entry κ → Prop} (h : ∀ entry ∈ st.entries, P entry) (he : P e) :
    ∀ entry ∈ (st.append e).entries, P entry := by
  intro entry hentry
  rcases List.mem_append.1 hentry with hbefore | hnew
  · exact h entry hbefore
  · rw [List.mem_singleton.1 hnew]
    exact he

omit [DecidableEq κ] in
theorem nodup_keys_append (hkeys : (st.entries.map Entry.key).Nodup)
    (hfresh : ∀ entry ∈ st.entries, entry.key ≠ e.key) :
    ((st.append e).entries.map Entry.key).Nodup := by
  have hmap : (st.append e).entries.map Entry.key = st.entries.map Entry.key ++ [e.key] :=
    List.map_append
  rw [hmap, List.nodup_append]
  refine ⟨hkeys, by simp, ?_⟩
  intro key hkey key' hkey' hsame
  rcases List.mem_map.1 hkey with ⟨entry, hentry, rfl⟩
  exact hfresh entry hentry (hsame.trans (by simpa using hkey'))

theorem find?_append (hfresh : ∀ entry ∈ st.entries, entry.key ≠ e.key) :
    (st.append e).find? other = if other = e.key then some e else st.find? other := by
  unfold append find?
  dsimp only
  rw [List.find?_append]
  split
  · rename_i hother
    subst hother
    have hnone : st.entries.find? (fun entry => decide (entry.key = e.key)) = none :=
      List.find?_eq_none.2 fun entry hentry => by simpa using hfresh entry hentry
    simp [hnone]
  · rename_i hother
    have hskip : [e].find? (fun entry => decide (entry.key = other)) = none := by
      simpa using fun h => hother h.symm
    rw [hskip, Option.or_none]

theorem find?_erase :
    (st.erase key).find? other = if other = key then none else st.find? other := by
  unfold erase find?
  dsimp only
  rw [List.find?_filter]
  split
  · rename_i hother
    exact List.find?_eq_none.2 fun entry _ => by simp [hother]
  · rename_i hother
    refine congrArg (fun test => st.entries.find? test) (funext ?_)
    intro entry
    by_cases hentry : entry.key = other
    · simp [hentry, hother]
    · simp [hentry]

/-- Nothing is erased where there is no entry. -/
theorem erase_eq_self (h : st.find? key = none) : st.erase key = st := by
  have hentries : st.entries.filter (·.key ≠ key) = st.entries :=
    List.filter_eq_self.2 fun entry hentry => by simpa using List.find?_eq_none.1 h entry hentry
  unfold erase
  rw [hentries]

end LedgerState

namespace Ledger

variable {κ : Type} [DecidableEq κ] (l : Ledger κ)

/-! ## Writes -/

/-- The key of a registered product. -/
def keyOf (p : Product) : Except CatalogError κ := do l.locate (← p.requireId)

/-- The entry of a key, which must be there. -/
def require (st : LedgerState κ) (key : κ) : Except CatalogError (Entry κ) :=
  match st.find? key with
  | some e => .ok e
  | none => .error (.notFound "Product" (l.spell key))

/-- The entry of a new product. -/
def register (r : Registration) (p : Product) (st : LedgerState κ) :
    Except CatalogError (Entry κ) := do
  p.requireUnregistered
  let t ← l.schema.resolveType p.productType
  let key ← l.assign r st.registered
  return { key, millis := r.millis, metadata := l.initial,
           product := { p with id := some (l.spell key), productType := t,
                               received := Instant.ofMillis? r.millis } }

/-- Registers a product. -/
def add (r : Registration) (p : Product) : Action (LedgerState κ) Product := do
  let e ← .reading (l.register r p)
  .changing fun st => .ok (st.append e)
  return e.product

/-- Changes the entry of a product. -/
def edit (p : Product) (change : Entry κ → Except CatalogError (Entry κ)) :
    Action (LedgerState κ) Unit :=
  .changing fun st => do return st.put (← change (← l.require st (← l.keyOf p)))

/-- Changes the product of an entry. -/
def editProduct (p : Product) (change : Product → Product) : Action (LedgerState κ) Unit :=
  l.edit p fun e => .ok { e with product := change e.product }

/-- Removes the entry of a product. -/
def remove (p : Product) : Action (LedgerState κ) Unit :=
  .changing fun st => do return st.erase (← l.require st (← l.keyOf p)).key

/-- Merges the declared part of metadata into those of an entry. -/
def addMetadata (m : Metadata) (p : Product) : Action (LedgerState κ) Unit :=
  l.edit p fun e => do
    let declared ← l.schema.declaredMetadata e.product.productType m
    return { e with metadata := some (e.shown.merge declared) }

/-- Removes values from the metadata of an entry, if it has any. -/
def removeMetadata (m : Metadata) (p : Product) : Action (LedgerState κ) Unit :=
  l.edit p fun e => .ok { e with metadata := e.metadata.map (·.removeValues m) }

/-! ## Reads -/

/-- The entry of a key, which must be there to see. -/
def visible (st : LedgerState κ) (key : κ) : Except CatalogError (Entry κ) :=
  match (st.find? key).filter l.sees with
  | some e => .ok e
  | none => .error (.notFound "Product" (l.spell key))

/-- The entries that reads see and that pass a test, in the order of answers. -/
def answer (st : LedgerState κ) (test : Entry κ → Bool) : List (Entry κ) :=
  (st.entries.filter fun e => l.sees e && test e).mergeSort l.precedes

/-- The entries of the products of a type. -/
def answerOfType (st : LedgerState κ) (t : ProductType) : Except CatalogError (List (Entry κ)) := do
  let t ← l.schema.resolveType t
  return l.answer st fun e => e.product.productType.id == t.id

/-- The entries of the products of a type that satisfy a query. -/
def matching (q : Query) (t : ProductType) (st : LedgerState κ) :
    Except CatalogError (List (Entry κ)) := do
  let t ← l.schema.resolveType t
  l.schema.checkQuery q t
  return l.answer st fun e => e.product.productType.id == t.id && l.satisfies q e.shown

/-- The product of an id. -/
def byId (id : String) (st : LedgerState κ) : Except CatalogError Product := do
  return (← l.visible st (← l.locate id)).product

/-- The only product of a name. -/
def byName (name : String) (st : LedgerState κ) : Except CatalogError Product :=
  match l.answer st (·.product.name == name) with
  | [] => .error (.notFound "Product" name)
  | [e] => .ok e.product
  | found => .error (.ambiguousProduct found.length name)

/-- One page of a result. -/
def pageOf (number : Int) (found : List Product) : Except CatalogError Page := do
  let window ← (PageWindow.resolve number l.pageSize found.length).mapError CatalogError.query
  return window.page l.pageSize found.length (window.cut l.pageSize found)

/-- The ledger as a catalog. -/
def catalog : Catalog (LedgerState κ) where
  pageSize := l.pageSize
  add := l.add
  modify p := l.editProduct p fun old => { old with
    name := p.name, fileStructure := p.fileStructure, status := p.status,
    references := p.references }
  remove := l.remove
  setStatus p := l.editProduct p fun old => { old with status := p.status }
  addReferences p := l.editProduct p fun old => { old with references := p.references }
  addMetadata := l.addMetadata
  removeMetadata := l.removeMetadata
  byId id := .reading (l.byId id)
  byName name := .reading (l.byName name)
  references p := .reading fun st => return (← l.visible st (← l.keyOf p)).product.references
  products := .reading fun st => .ok ((l.answer st fun _ => true).map Entry.product)
  productsOfType t := .reading fun st => return (← l.answerOfType st t).map Entry.product
  metadata p := .reading fun st => return (← l.visible st (← l.keyOf p)).shown
  query q t := .reading fun st => return (← l.matching q t st).map fun e => l.spell e.key
  page q t number := .reading fun st => do
    l.pageOf number ((← l.matching q t st).map Entry.product)
  newest n := .reading fun st => .ok (((l.answer st fun _ => true).map Entry.product).take n)
  newestOfType n t := .reading fun st =>
    return ((← l.answerOfType st t).map Entry.product).take n
  count t := .reading fun st => return (← l.answerOfType st t).length

/-! ## Runs -/

omit [DecidableEq κ] in
theorem run_add_ok {r : Registration} {p : Product} {st : LedgerState κ} {e : Entry κ}
    (h : l.register r p st = .ok e) : (l.add r p).run st = (.ok e.product, st.append e) := by
  have hread : (Action.reading (l.register r p)).run st = (.ok e, st) := by
    rw [Action.run_reading, h]
  rw [add, Action.run_bind_ok hread]
  rfl

omit [DecidableEq κ] in
theorem run_add_error {r : Registration} {p : Product} {st : LedgerState κ} {f : CatalogError}
    (h : l.register r p st = .error f) : (l.add r p).run st = (.error f, st) := by
  have hread : (Action.reading (l.register r p)).run st = (.error f, st) := by
    rw [Action.run_reading, h]
  exact Action.run_bind_error hread

/-- The entry that a write is about. -/
def target (st : LedgerState κ) (p : Product) : Except CatalogError (Entry κ) := do
  l.require st (← l.keyOf p)

variable {l} in
theorem find?_of_target {st : LedgerState κ} {p : Product} {e : Entry κ}
    (h : l.target st p = .ok e) : st.find? e.key = some e := by
  rcases Action.bind_eq_ok_iff.1 h with ⟨key, -, hrequire⟩
  unfold require at hrequire
  split at hrequire
  · rename_i found hfound
    cases hrequire
    rwa [(LedgerState.mem_of_find? hfound).2]
  · cases hrequire

theorem run_edit (p : Product) (change : Entry κ → Except CatalogError (Entry κ))
    (st : LedgerState κ) :
    (l.edit p change).run st =
      match l.target st p with
      | .error f => (.error f, st)
      | .ok e =>
        match change e with
        | .error f => (.error f, st)
        | .ok e' => (.ok (), st.put e') := by
  -- the two look-ups of an edit are those of its target
  have hchange : (do return st.put (← change (← l.require st (← l.keyOf p))) :
      Except CatalogError (LedgerState κ)) = do return st.put (← change (← l.target st p)) := by
    rw [target]
    cases l.keyOf p <;> rfl
  unfold edit
  cases htarget : l.target st p with
  | error f =>
    apply Action.run_changing_error
    rw [hchange, htarget]
    rfl
  | ok e =>
    dsimp only
    cases he : change e with
    | error f =>
      apply Action.run_changing_error
      rw [hchange, htarget]
      simp [he, bind, Except.bind]
    | ok e' =>
      apply Action.run_changing_ok
      rw [hchange, htarget]
      simp [he, bind, Except.bind, pure, Except.pure]

/-- An edit shows under each key what it does not change. -/
theorem visible_edit {α : Type} (f : Entry κ → α) {st : LedgerState κ}
    (hkeys : (st.entries.map Entry.key).Nodup) (p : Product)
    {change : Entry κ → Except CatalogError (Entry κ)}
    (hchange : ∀ e e', change e = .ok e' → e'.key = e.key ∧ l.sees e' = l.sees e ∧ f e' = f e)
    (key : κ) :
    (l.visible ((l.edit p change).run st).2 key).map f = (l.visible st key).map f := by
  rw [run_edit]
  cases htarget : l.target st p with
  | error _ => rfl
  | ok e =>
    dsimp only
    cases he : change e with
    | error _ => rfl
    | ok e' =>
      rcases hchange e e' he with ⟨hkey, hsees, hf⟩
      have hfound : st.find? e'.key = some e := by
        rw [hkey]
        exact find?_of_target htarget
      unfold visible
      rw [LedgerState.find?_put hkeys hfound]
      by_cases hsame : key = e'.key
      -- under the key of the edited entry the old and the new one show the same
      · rw [if_pos hsame, hsame, hfound, Option.filter_some, Option.filter_some, hsees]
        cases l.sees e with
        | true => exact congrArg Except.ok hf
        | false => rfl
      · rw [if_neg hsame]

theorem run_remove (p : Product) (st : LedgerState κ) :
    (l.remove p).run st =
      match l.target st p with
      | .error f => (.error f, st)
      | .ok e => (.ok (), st.erase e.key) := by
  have hchange : (do return st.erase (← l.require st (← l.keyOf p)).key :
      Except CatalogError (LedgerState κ)) = do return st.erase (← l.target st p).key := by
    rw [target]
    cases l.keyOf p <;> rfl
  unfold remove
  cases htarget : l.target st p with
  | error f =>
    apply Action.run_changing_error
    rw [hchange, htarget]
    rfl
  | ok e =>
    apply Action.run_changing_ok
    rw [hchange, htarget]
    rfl

variable {l} in
omit [DecidableEq κ] in
theorem mem_answer {st : LedgerState κ} {test : Entry κ → Bool} {e : Entry κ}
    (he : e ∈ l.answer st test) : e ∈ st.entries :=
  (List.mem_filter.1 (List.mem_mergeSort.1 he)).1

/-! ## Growth -/

/-- The action adds one entry at most. -/
def AddsOne {α : Type} (a : Action (LedgerState κ) α) : Prop :=
  ∀ st, (a.run st).2.entries.length ≤ st.entries.length + 1

omit [DecidableEq κ] in
theorem AddsOne.answer {α β : Type} {a : Action (LedgerState κ) α} (h : AddsOne a)
    (f : α → β) : AddsOne (do return f (← a)) := by
  intro st
  rw [Action.run_map]
  exact h st

omit [DecidableEq κ] in
theorem addsOne_of_silent {α : Type} {a : Action (LedgerState κ) α} (h : Action.Silent a) :
    AddsOne a := by
  intro st
  rw [h st]
  exact Nat.le_succ _

theorem addsOne_edit (p : Product) (change : Entry κ → Except CatalogError (Entry κ)) :
    AddsOne (l.edit p change) := by
  intro st
  rw [run_edit]
  cases l.target st p with
  | error _ => exact Nat.le_succ _
  | ok e =>
    dsimp only
    cases change e with
    | error _ => exact Nat.le_succ _
    | ok e' => exact Nat.le_succ_of_le (Nat.le_of_eq (List.length_map _))

theorem addsOne_remove (p : Product) : AddsOne (l.remove p) := by
  intro st
  rw [run_remove]
  cases l.target st p with
  | error _ => exact Nat.le_succ _
  | ok e => exact Nat.le_succ_of_le (List.length_filter_le _ _)

omit [DecidableEq κ] in
theorem addsOne_add (r : Registration) (p : Product) : AddsOne (l.add r p) := by
  intro st
  cases hregister : l.register r p st with
  | error f =>
    rw [run_add_error _ hregister]
    exact Nat.le_succ _
  | ok e =>
    rw [run_add_ok _ hregister]
    exact Nat.le_of_eq List.length_append

theorem addsOne_perform (op : Operation) : AddsOne (l.catalog.perform op) := by
  cases op with
  | add r p => exact (l.addsOne_add r p).answer _
  | remove p => exact (l.addsOne_remove p).answer _
  | modify p | setStatus p | addReferences p | addMetadata m p | removeMetadata m p =>
    exact (l.addsOne_edit p _).answer _
  | _ => exact (addsOne_of_silent (Action.silent_reading _)).answer _

end Ledger

end ArchiveCatalog
