import ArchiveCatalog.Catalog
import ArchiveCatalog.Proofs.Action

namespace ArchiveCatalog

/-! # Histories

A history is a list of operations that a catalog performs one after the other, failed ones
included. Two catalogs answer alike on every history when each step of one is matched by
the other and keeps the states related.
-/

theorem Product.requireId_of_id {p : Product} {id : String} (hp : p.id = some id) :
    p.requireId = .ok id := by
  rw [requireId, hp]

theorem Product.id_of_requireId {p : Product} {id : String} (h : p.requireId = .ok id) :
    p.id = some id := by
  unfold requireId at h
  split at h
  next hp =>
    cases h
    exact hp
  next => cases h

/-- An operation of a catalog with its arguments. -/
inductive Operation
  | add (r : Registration) (p : Product)
  | modify (p : Product)
  | remove (p : Product)
  | setStatus (p : Product)
  | addReferences (p : Product)
  | addMetadata (m : Metadata) (p : Product)
  | removeMetadata (m : Metadata) (p : Product)
  | byId (id : String)
  | byName (name : String)
  | references (p : Product)
  | products
  | productsOfType (t : ProductType)
  | metadata (p : Product)
  | query (q : Query) (t : ProductType)
  | page (q : Query) (t : ProductType) (number : Int)
  | newest (n : Nat)
  | newestOfType (n : Nat) (t : ProductType)
  | count (t : ProductType)
  deriving DecidableEq, Repr

/-- The operation may change what a catalog keeps. -/
def Operation.isWrite : Operation → Bool
  | .add .. | .modify _ | .remove _ | .setStatus _ | .addReferences _ | .addMetadata ..
  | .removeMetadata .. => true
  | _ => false

/-- What an operation answers. -/
inductive Answer
  | done
  | product (p : Product)
  | products (ps : List Product)
  | references (rs : List FileReference)
  | metadata (m : Metadata)
  | ids (ids : List String)
  | page (p : Page)
  | count (n : Nat)
  deriving DecidableEq, Repr

/-- The ids that the surroundings supply in a history. -/
def freshIds (history : List Operation) : List String :=
  history.filterMap fun
    | .add r _ => some r.freshId
    | _ => none

/-- A registration uses its id up, also when it fails. -/
theorem nodup_freshIds_rest {op : Operation} {rest : List Operation}
    (h : (freshIds (op :: rest)).Nodup) : (freshIds rest).Nodup :=
  h.sublist ((List.sublist_cons_self op rest).filterMap _)

/-- A registration in a history gives its id. -/
theorem freshId_mem {history : List Operation} {r : Registration} {p : Product}
    (h : .add r p ∈ history) : r.freshId ∈ freshIds history :=
  List.mem_filterMap.2 ⟨.add r p, h, rfl⟩

/-- If no id is given twice, that of a registration is given neither before nor after it. -/
theorem freshId_not_mem {before later : List Operation} {r : Registration} {p : Product}
    (h : (freshIds (before ++ .add r p :: later)).Nodup) :
    r.freshId ∉ freshIds before ∧ r.freshId ∉ freshIds later := by
  rw [freshIds, List.filterMap_append, List.nodup_append] at h
  rcases h with ⟨-, hafter, hapart⟩
  constructor
  · intro hgiven
    exact hapart r.freshId hgiven r.freshId List.mem_cons_self rfl
  · exact (List.nodup_cons.1 hafter).1

namespace Catalog

variable {σ τ : Type}

/-- Performs an operation. -/
def perform (c : Catalog σ) : Operation → Action σ Answer
  | .add r p => return .product (← c.add r p)
  | .modify p => do c.modify p; return .done
  | .remove p => do c.remove p; return .done
  | .setStatus p => do c.setStatus p; return .done
  | .addReferences p => do c.addReferences p; return .done
  | .addMetadata m p => do c.addMetadata m p; return .done
  | .removeMetadata m p => do c.removeMetadata m p; return .done
  | .byId id => return .product (← c.byId id)
  | .byName name => return .product (← c.byName name)
  | .references p => return .references (← c.references p)
  | .products => return .products (← c.products)
  | .productsOfType t => return .products (← c.productsOfType t)
  | .metadata p => return .metadata (← c.metadata p)
  | .query q t => return .ids (← c.query q t)
  | .page q t number => return .page (← c.page q t number)
  | .newest n => return .products (← c.newest n)
  | .newestOfType n t => return .products (← c.newestOfType n t)
  | .count t => return .count (← c.count t)

/-- The state after a history. -/
def after (c : Catalog σ) (s : σ) : List Operation → σ
  | [] => s
  | op :: rest => c.after ((c.perform op).run s).2 rest

/-- The answers and errors of a history in order. -/
def outcomes (c : Catalog σ) (s : σ) : List Operation → List (Except CatalogError Answer)
  | [] => []
  | op :: rest => ((c.perform op).run s).1 :: c.outcomes ((c.perform op).run s).2 rest

/-- The product is found under the id that it has, and with the type that it has. -/
def FindsAgain (c : Catalog σ) (s : σ) (stored : Product) : Prop :=
  ∃ id found, stored.id = some id ∧ ((c.byId id).run s).1 = .ok found ∧
    found.id = stored.id ∧ found.productType = stored.productType

/-- What each of its operations keeps, a history keeps. -/
theorem after_induction {c : Catalog σ} {inv : σ → Prop} {ops : List Operation}
    (hstep : ∀ op ∈ ops, Action.Keeps inv (c.perform op)) {s : σ} (hinit : inv s) :
    inv (c.after s ops) := by
  induction ops generalizing s with
  | nil => exact hinit
  | cons op rest ih =>
    have hrest : ∀ later ∈ rest, Action.Keeps inv (c.perform later) :=
      fun later hlater => hstep later (List.mem_cons_of_mem op hlater)
    exact ih hrest (hstep op List.mem_cons_self s hinit)

/-- Catalogs whose steps match have the same outcomes. The relation may speak of the
operations that are still to come. -/
theorem outcomes_eq_of_simulation {c : Catalog σ} {d : Catalog τ}
    {R : List Operation → σ → τ → Prop}
    (hstep : ∀ op rest s t, R (op :: rest) s t →
      ((c.perform op).run s).1 = ((d.perform op).run t).1 ∧
        R rest ((c.perform op).run s).2 ((d.perform op).run t).2)
    {s : σ} {t : τ} {ops : List Operation} (hinit : R ops s t) :
    c.outcomes s ops = d.outcomes t ops := by
  induction ops generalizing s t with
  | nil => rfl
  | cons op rest ih =>
    rcases hstep op rest s t hinit with ⟨hanswer, hrel⟩
    simp only [outcomes, hanswer, ih hrel]

/-- Catalogs whose steps match stay related. -/
theorem after_of_simulation {c : Catalog σ} {d : Catalog τ} {R : List Operation → σ → τ → Prop}
    (hstep : ∀ op rest s t, R (op :: rest) s t →
      ((c.perform op).run s).1 = ((d.perform op).run t).1 ∧
        R rest ((c.perform op).run s).2 ((d.perform op).run t).2)
    {s : σ} {t : τ} {ops : List Operation} (hinit : R ops s t) :
    R [] (c.after s ops) (d.after t ops) := by
  induction ops generalizing s t with
  | nil => exact hinit
  | cons op rest ih => exact ih (hstep op rest s t hinit).2

end Catalog

end ArchiveCatalog
