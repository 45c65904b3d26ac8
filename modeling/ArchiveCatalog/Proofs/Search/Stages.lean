import Mathlib.Data.List.Forall2
import Mathlib.Data.List.Pairwise
import ArchiveCatalog.Catalog.Search
import ArchiveCatalog.Proofs.Action
import ArchiveCatalog.Proofs.Schema

namespace ArchiveCatalog

/-! # The stages of a search

A search collects the hits of one type after the other, thins them out, puts them in order and
only then takes the fields asked for from each. What fields and format are asked for therefore
makes no difference to which products are answered and in what order.
-/

/-! ## Working through lists -/

namespace Action

variable {σ α β : Type}

/-- What a list is worked through to by reading only, was read for each member. -/
theorem Silent.forall₂_of_run_mapM {f : α → Action σ β} (hf : ∀ x, Silent (f x)) {xs : List α}
    {ys : List β} {s s' : σ} (h : run (xs.mapM f) s = (.ok ys, s')) :
    s' = s ∧ List.Forall₂ (fun x y => (f x).run s = (.ok y, s)) xs ys := by
  induction xs generalizing ys with
  | nil =>
    cases h
    exact ⟨rfl, .nil⟩
  | cons x rest ih =>
    rw [List.mapM_cons] at h
    rcases run_bind_eq_ok h with ⟨y, t, hy, hgoes⟩
    rcases run_bind_eq_ok hgoes with ⟨later, u, hlater, hends⟩
    cases hends
    obtain rfl : t = s := by
      have hstate := hf x s
      rwa [hy] at hstate
    rcases ih hlater with ⟨rfl, hread⟩
    exact ⟨rfl, .cons hy hread⟩

end Action

/-! ## Hits -/

namespace Hit

variable {q : ComplexQuery} {f : EventFilter} {key : String} {hits kept : List Hit}

/-! ### Filtering -/

end Hit

/-! ## Searches -/

namespace Catalog

variable {σ : Type} (c : Catalog σ) (near : σ → σ → Prop) (schema : Schema) (q : ComplexQuery)

/-- The catalog answers the product of the id, with all of its metadata. -/
structure Loads (s : σ) (id : String) (h : Hit) : Prop where
  product : (c.byId id).run s = (.ok h.product, s)
  metadata : (c.metadata h.product).run s = (.ok h.metadata, s)

/-- The catalog is asked for the products of the type in a state near to the first one, and
answers these. Asked in any such state, the first one too, it answers no others. -/
def Finds (s s' : σ) (t : ProductType) (found : List Hit) : Prop :=
  ∃ ids before after, near s before ∧ (c.query q.query t).run before = (.ok ids, after) ∧
    near after s' ∧ List.Forall₂ (c.Loads after) ids found ∧
    ∀ u answered, near s u → ((c.query q.query t).run u).1 = .ok answered → answered = ids

/-- Queries lead to near states only, where the same products are found, and products and metadata
are only read. -/
structure Steady : Prop where
  refl : ∀ s, near s s
  trans : ∀ {s t u}, near s t → near t u → near s u
  keeps : ∀ q t s, near s ((c.query q t).run s).2
  same : ∀ {q t s u v ids ids'}, near s u → near s v → ((c.query q t).run u).1 = .ok ids →
    ((c.query q t).run v).1 = .ok ids' → ids = ids'
  byId : ∀ id, Action.Silent (c.byId id)
  metadata : ∀ p, Action.Silent (c.metadata p)

variable {c near schema q} {s s' start : σ} {t : ProductType} {hits : List Hit}

theorem Steady.loads (h : c.Steady near) {ids : List String}
    (hrun : Action.run (ids.mapM fun id => do
      let product ← c.byId id
      return ⟨product, ← c.metadata product⟩) s = (.ok hits, s')) :
    s' = s ∧ List.Forall₂ (c.Loads s) ids hits := by
  have hsilent : ∀ id, Action.Silent (do
      let product ← c.byId id
      return (⟨product, ← c.metadata product⟩ : Hit)) := fun id =>
    (h.byId id).bind fun product => (h.metadata product).answer _
  rcases Action.Silent.forall₂_of_run_mapM hsilent hrun with ⟨hstate, hread⟩
  refine ⟨hstate, hread.imp fun id hit hhit => ?_⟩
  rcases Action.run_bind_eq_ok hhit with ⟨product, u, hproduct, hgoes⟩
  rcases Action.run_bind_eq_ok hgoes with ⟨m, v, hmetadata, hends⟩
  cases hends
  obtain rfl : u = s := by
    have hunchanged := h.byId id s
    rwa [hproduct] at hunchanged
  exact ⟨hproduct, hmetadata⟩

theorem Steady.finds (h : c.Steady near) (hbefore : near start s)
    (hrun : (c.hitsOfType q.query t).run s = (.ok hits, s')) :
    near s s' ∧ ∀ final, near s' final → c.Finds near q start final t hits := by
  rcases Action.run_bind_eq_ok hrun with ⟨ids, u, hids, hloaded⟩
  rcases h.loads hloaded with ⟨rfl, hloads⟩
  have hnear := h.keeps q.query t s
  rw [hids] at hnear
  refine ⟨hnear, fun final hafter => ⟨ids, s, s', hbefore, hids, hafter, hloads, ?_⟩⟩
  intro v answered hv hanswered
  exact h.same hv hbefore hanswered (congrArg Prod.fst hids)

end Catalog

end ArchiveCatalog
