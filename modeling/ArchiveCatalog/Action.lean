import ArchiveCatalog.Error

namespace ArchiveCatalog

/-! # Actions

An action runs on a state and either answers or fails. What it did to the state before it
failed stays; `Action.atomically` undoes that, so that a failed action leaves no trace.
-/

/-- A computation on a state that may fail. -/
abbrev Action (σ α : Type) := ExceptT CatalogError (StateM σ) α

namespace Action

variable {σ τ α : Type}

/-- The answer of an action and the state after it. -/
def run (a : Action σ α) (s : σ) : Except CatalogError α × σ := StateT.run (ExceptT.run a) s

/-- An answer that is there already. -/
def ofExcept (answer : Except CatalogError α) : Action σ α := fun s => (answer, s)

/-- A fault of a query. -/
def ofQuery (answer : Except QueryFault α) : Action σ α :=
  ofExcept (answer.mapError CatalogError.query)

/-- An answer read off the state. -/
def reading (f : σ → Except CatalogError α) : Action σ α := fun s => (f s, s)

/-- A change of the state, none if it fails. -/
def changing (f : σ → Except CatalogError σ) : Action σ Unit := fun s =>
  match f s with
  | .ok s' => (.ok (), s')
  | .error e => (.error e, s)

/-- Undoes everything an action did to the state if it fails. -/
def atomically (a : Action σ α) : Action σ α := fun s =>
  match a.run s with
  | (.ok x, s') => (.ok x, s')
  | (.error e, _) => (.error e, s)

/-- An action on a part of a state. -/
def within (part : σ → τ) (put : τ → σ → σ) (a : Action τ α) : Action σ α := fun s =>
  let (answer, t) := a.run (part s)
  (answer, put t s)

/-- A failed atomic action leaves the state as it was. -/
theorem run_atomically_of_error {a : Action σ α} {s s' : σ} {e : CatalogError}
    (h : (atomically a).run s = (.error e, s')) : s' = s := by
  simp only [run, atomically, StateT.run, ExceptT.run] at h
  split at h <;> simp_all

end Action

end ArchiveCatalog
