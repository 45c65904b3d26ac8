import ArchiveCatalog.Proofs.History
import ArchiveCatalog.Schema.Lookup

namespace ArchiveCatalog

/-! # Attempts

While an operation is performed, any of its calls to collaborators may fail. A history of attempts
runs each operation on the catalog as it is with the calls that fail then, so a write may be given
up at any of them, after others were answered, and the history goes on from what it left.
-/

/-- An operation, and how collaborators fail while it is performed. -/
structure Attempt where
  outage : Outage
  operation : Operation

/-- The same schema while collaborators fail. -/
def Schema.during (s : Schema) (o : Outage) : Schema := { s with outage := o }

/-- A single call fails. -/
def Disruption.only (call : Call) : Disruption := ⟨fun other => other == call⟩

/-- A single call fails, whichever collaborator it is made to. -/
def Outage.only (call : Call) : Outage := ⟨.only call, .only call, .only call⟩

namespace Catalog

variable {σ β : Type}

/-- The state after attempts on a catalog that depends on what fails. -/
def afterAttempts (c : Outage → Catalog σ) (s : σ) : List Attempt → σ
  | [] => s
  | t :: rest => afterAttempts c (((c t.outage).perform t.operation).run s).2 rest

/-- The operations that succeeded, in order. -/
def successes (c : Outage → Catalog σ) (s : σ) : List Attempt → List Operation
  | [] => []
  | t :: rest =>
    match ((c t.outage).perform t.operation).run s with
    | (.ok _, s') => t.operation :: successes c s' rest
    | (.error _, s') => successes c s' rest

/-- What every attempt keeps, every history of attempts keeps. -/
theorem afterAttempts_induction {c : Outage → Catalog σ} {inv : σ → Prop}
    (hstep : ∀ o op, Action.Keeps inv ((c o).perform op)) {s : σ} (hinit : inv s)
    (ts : List Attempt) : inv (afterAttempts c s ts) := by
  induction ts generalizing s with
  | nil => exact hinit
  | cons t rest ih => exact ih (hstep t.outage t.operation s hinit)

/-- A state stays in step with an account of the operations that succeeded if every operation keeps
it so: one that succeeds with the account that notes it, one that fails with the same account. -/
theorem successes_induction {c : Outage → Catalog σ} {note : β → Operation → β}
    {inv : List Attempt → β → σ → Prop}
    (hstep : ∀ t rest b s, inv (t :: rest) b s → Action.Ends ((c t.outage).perform t.operation) s
      (inv rest (note b t.operation)) (inv rest b))
    {b : β} {s : σ} {ts : List Attempt} (hinit : inv ts b s) :
    inv [] ((successes c s ts).foldl note b) (afterAttempts c s ts) := by
  induction ts generalizing b s with
  | nil => exact hinit
  | cons t rest ih =>
    have hends := hstep t rest b s hinit
    unfold Action.Ends at hends
    rw [successes, afterAttempts]
    rcases hrun : ((c t.outage).perform t.operation).run s with ⟨answer, s'⟩
    rw [hrun] at hends
    cases answer with
    | ok answer => exact ih hends
    | error e => exact ih hends

end Catalog

end ArchiveCatalog
