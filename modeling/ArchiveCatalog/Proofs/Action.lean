import ArchiveCatalog.Action

namespace ArchiveCatalog.Action

/-! # Running actions

What a run of an action answers and leaves behind, one fact for each way of building
actions. Proofs about catalogs run their actions by these facts alone.
-/

variable {σ α β : Type}

theorem run_pure (x : α) (s : σ) : run (pure x : Action σ α) s = (.ok x, s) := rfl

/-- The second action runs on what the first one left, unless the first one failed. -/
theorem run_bind (a : Action σ α) (f : α → Action σ β) (s : σ) :
    run (a >>= f) s =
      match a.run s with
      | (.ok x, s') => (f x).run s'
      | (.error e, s') => (.error e, s') := by
  simp only [run, ExceptT.run_bind, StateT.run_bind]
  rcases StateT.run (ExceptT.run a) s with ⟨answer, s'⟩
  cases answer <;> rfl

theorem run_bind_ok {a : Action σ α} {f : α → Action σ β} {s s' : σ} {x : α}
    (h : a.run s = (.ok x, s')) : run (a >>= f) s = (f x).run s' := by
  rw [run_bind, h]

theorem run_bind_error {a : Action σ α} {f : α → Action σ β} {s s' : σ} {e : CatalogError}
    (h : a.run s = (.error e, s')) : run (a >>= f) s = (.error e, s') := by
  rw [run_bind, h]

/-- If both actions together answer, each has answered. -/
theorem run_bind_eq_ok {a : Action σ α} {f : α → Action σ β} {s s' : σ} {y : β}
    (h : run (a >>= f) s = (.ok y, s')) :
    ∃ x t, a.run s = (.ok x, t) ∧ (f x).run t = (.ok y, s') := by
  rw [run_bind] at h
  rcases hrun : a.run s with ⟨answer, t⟩
  rw [hrun] at h
  cases answer with
  | ok x => exact ⟨x, t, rfl, h⟩
  | error e => cases h

/-- What is made of the answer does not matter for the state. -/
theorem run_map (a : Action σ α) (f : α → β) (s : σ) :
    run (do return f (← a)) s = ((a.run s).1.map f, (a.run s).2) := by
  rw [run_bind]
  rcases a.run s with ⟨answer, s'⟩
  cases answer <;> rfl

theorem run_ofExcept (answer : Except CatalogError α) (s : σ) :
    (ofExcept answer).run s = (answer, s) := rfl

theorem run_ofExcept_bind_eq_ok {answer : Except CatalogError α} {f : α → Action σ β} {s s' : σ}
    {y : β} (h : run (ofExcept answer >>= f) s = (.ok y, s')) :
    ∃ x, answer = .ok x ∧ (f x).run s = (.ok y, s') := by
  rw [run_bind, run_ofExcept] at h
  cases answer with
  | ok x => exact ⟨x, rfl, h⟩
  | error e => cases h

theorem run_reading (f : σ → Except CatalogError α) (s : σ) : (reading f).run s = (f s, s) := rfl

theorem run_changing_ok {f : σ → Except CatalogError σ} {s s' : σ} (h : f s = .ok s') :
    (changing f).run s = (.ok (), s') := by
  simp [run, changing, StateT.run, ExceptT.run, h]

theorem run_changing_error {f : σ → Except CatalogError σ} {s : σ} {e : CatalogError}
    (h : f s = .error e) : (changing f).run s = (.error e, s) := by
  simp [run, changing, StateT.run, ExceptT.run, h]

theorem run_get (s : σ) : run (get : Action σ σ) s = (.ok s, s) := rfl

theorem run_modify (f : σ → σ) (s : σ) : run (modify f : Action σ Unit) s = (.ok (), f s) := rfl

theorem run_set (s s' : σ) : run (set s' : Action σ Unit) s = (.ok (), s') := rfl

/-- The handler of an action runs on what the action left if it failed. -/
theorem run_tryCatch (a : Action σ α) (handler : CatalogError → Action σ α) (s : σ) :
    run (tryCatch a handler) s =
      match a.run s with
      | (.ok x, s') => (.ok x, s')
      | (.error e, s') => (handler e).run s' := by
  simp only [run, tryCatch, tryCatchThe, MonadExceptOf.tryCatch, ExceptT.tryCatch, ExceptT.run,
    ExceptT.mk]
  rw [StateT.run_bind]
  rcases StateT.run a s with ⟨answer, s'⟩
  cases answer <;> rfl

theorem run_tryCatch_ok {a : Action σ α} {handler : CatalogError → Action σ α} {s s' : σ} {x : α}
    (h : a.run s = (.ok x, s')) : run (tryCatch a handler) s = (.ok x, s') := by
  rw [run_tryCatch, h]

theorem run_tryCatch_error {a : Action σ α} {handler : CatalogError → Action σ α} {s s' : σ}
    {e : CatalogError} (h : a.run s = (.error e, s')) :
    run (tryCatch a handler) s = (handler e).run s' := by
  rw [run_tryCatch, h]

theorem run_atomically_ok {a : Action σ α} {s s' : σ} {x : α} (h : a.run s = (.ok x, s')) :
    (atomically a).run s = (.ok x, s') := by
  have hrun : (atomically a).run s = match a.run s with
      | (.ok x, s') => (.ok x, s')
      | (.error e, _) => (.error e, s) := rfl
  rw [hrun, h]

theorem run_atomically_error {a : Action σ α} {s s' : σ} {e : CatalogError}
    (h : a.run s = (.error e, s')) : (atomically a).run s = (.error e, s) := by
  have hrun : (atomically a).run s = match a.run s with
      | (.ok x, s') => (.ok x, s')
      | (.error e, _) => (.error e, s) := rfl
  rw [hrun, h]

/-- What succeeds has succeeded before anything could be undone. -/
theorem run_atomically_eq_ok {a : Action σ α} {s s' : σ} {x : α}
    (h : (atomically a).run s = (.ok x, s')) : a.run s = (.ok x, s') := by
  rcases hrun : a.run s with ⟨answer, t⟩
  cases answer with
  | ok y =>
    rw [run_atomically_ok hrun] at h
    exact h
  | error e =>
    rw [run_atomically_error hrun] at h
    cases h

theorem run_atomically_congr {a b : Action σ α} {s : σ} (h : a.run s = b.run s) :
    (atomically a).run s = (atomically b).run s := by
  rcases hrun : b.run s with ⟨answer, s'⟩
  rw [hrun] at h
  cases answer with
  | ok x => rw [run_atomically_ok h, run_atomically_ok hrun]
  | error e => rw [run_atomically_error h, run_atomically_error hrun]

/-- An action on a part of a state leaves the rest. -/
theorem run_within {τ : Type} (part : σ → τ) (put : τ → σ → σ) (a : Action τ α) (s : σ) :
    (a.within part put).run s = ((a.run (part s)).1, put (a.run (part s)).2 s) := rfl

theorem run_discard_ok {a : Action σ α} {s s' : σ} {x : α} (h : a.run s = (.ok x, s')) :
    (discard a).run s = (.ok ⟨⟩, s') := by
  have hrun : (discard a).run s = run (a >>= fun _ => pure ⟨⟩) s := rfl
  rw [hrun, run_bind_ok h]
  rfl

theorem run_discard_error {a : Action σ α} {s s' : σ} {e : CatalogError}
    (h : a.run s = (.error e, s')) : (discard a).run s = (.error e, s') := by
  have hrun : (discard a).run s = run (a >>= fun _ => pure ⟨⟩) s := rfl
  rw [hrun, run_bind_error h]

/-! ## Actions that only read -/

/-- The action leaves every state as it was. -/
def Silent (a : Action σ α) : Prop := ∀ s, (a.run s).2 = s

theorem silent_pure (x : α) : Silent (pure x : Action σ α) := fun _ => rfl

theorem silent_throw (e : CatalogError) : Silent (throw e : Action σ α) := fun _ => rfl

theorem silent_ofExcept (answer : Except CatalogError α) : Silent (ofExcept answer : Action σ α) :=
  fun _ => rfl

theorem silent_reading (f : σ → Except CatalogError α) : Silent (reading f) := fun _ => rfl

theorem silent_get : Silent (get : Action σ σ) := fun _ => rfl

theorem Silent.bind {a : Action σ α} {f : α → Action σ β} (ha : Silent a)
    (hf : ∀ x, Silent (f x)) : Silent (a >>= f) := by
  intro s
  have hstate := ha s
  rw [run_bind]
  rcases hrun : a.run s with ⟨answer, s'⟩
  rw [hrun] at hstate
  subst hstate
  cases answer with
  | ok x => exact hf x _
  | error e => rfl

/-- After a reading the state is what it was, or what the next action makes of it. -/
theorem Silent.bind_property {a : Action σ α} {f : α → Action σ β} {s : σ} {property : σ → Prop}
    (ha : Silent a) (hfails : property s) (hgoes : ∀ x, property ((f x).run s).2) :
    property (run (a >>= f) s).2 := by
  have hstate := ha s
  rw [run_bind]
  rcases hrun : a.run s with ⟨answer, s'⟩
  rw [hrun] at hstate
  obtain rfl : s' = s := hstate
  cases answer with
  | ok x => exact hgoes x
  | error e => exact hfails

theorem Silent.answer {a : Action σ α} (ha : Silent a) (f : α → β) :
    Silent (do return f (← a)) := ha.bind fun x => silent_pure (f x)

theorem silent_mapM {f : α → Action σ β} {xs : List α} (h : ∀ x, Silent (f x)) :
    Silent (xs.mapM f) := by
  induction xs with
  | nil => exact silent_pure []
  | cons x rest ih =>
    rw [List.mapM_cons]
    exact (h x).bind fun y => ih.bind fun ys => silent_pure (y :: ys)

theorem silent_foldlM {f : β → α → Action σ β} {xs : List α} (h : ∀ b x, Silent (f b x)) (b : β) :
    Silent (xs.foldlM f b) := by
  induction xs generalizing b with
  | nil => exact silent_pure b
  | cons x rest ih =>
    rw [List.foldlM_cons]
    exact (h b x).bind fun y => ih y

/-! ## Actions that fail without a trace -/

/-- When the action fails it leaves the state as it was. -/
def Atomic (a : Action σ α) : Prop := ∀ s s' e, a.run s = (.error e, s') → s' = s

theorem atomic_atomically (a : Action σ α) : Atomic (atomically a) :=
  fun _ _ _ h => run_atomically_of_error h

theorem atomic_modify (f : σ → σ) : Atomic (modify f : Action σ Unit) := by
  intro s s' e h
  cases h

theorem atomic_set (t : σ) : Atomic (set t : Action σ Unit) := by
  intro s s' e h
  cases h

theorem atomic_changing (f : σ → Except CatalogError σ) : Atomic (changing f) := by
  intro s s' e h
  cases hf : f s with
  | ok t =>
    rw [run_changing_ok hf] at h
    cases h
  | error g =>
    rw [run_changing_error hf] at h
    exact (congrArg Prod.snd h).symm

/-- What is only read before it does not matter. -/
theorem Silent.bind_atomic {a : Action σ α} {f : α → Action σ β} (ha : Silent a)
    (hf : ∀ x, Atomic (f x)) : Atomic (a >>= f) := by
  intro s s' e h
  have hstate := ha s
  rw [run_bind] at h
  rcases hrun : a.run s with ⟨answer, t⟩
  rw [hrun] at h hstate
  obtain rfl : t = s := hstate
  cases answer with
  | ok x => exact hf x t s' e h
  | error g => exact (congrArg Prod.snd h).symm

/-- Nor does what is made of the answer. -/
theorem Atomic.answer {a : Action σ α} (ha : Atomic a) (f : α → β) :
    Atomic (do return f (← a)) := by
  intro s s' e h
  rw [run_map] at h
  rcases hrun : a.run s with ⟨answer, t⟩
  rw [hrun] at h
  cases answer with
  | ok x => cases h
  | error g =>
    obtain rfl : t = s' := congrArg Prod.snd h
    exact ha s t g hrun

/-- What two steps answer together, each has answered. -/
theorem bind_eq_ok_iff {ε : Type} {x : Except ε α} {f : α → Except ε β} {b : β} :
    (x >>= f) = .ok b ↔ ∃ a, x = .ok a ∧ f a = .ok b := by
  cases x with
  | error e => simp [bind, Except.bind]
  | ok a => simp [bind, Except.bind]

/-- Errors may be told otherwise after each step. -/
theorem mapError_bind {ε ε' : Type} (tell : ε → ε') (x : Except ε α) (f : α → Except ε β) :
    (x >>= f).mapError tell = x.mapError tell >>= fun a => (f a).mapError tell := by
  cases x <;> rfl

/-- What is answered with a change has been answered without it. -/
theorem map_eq_ok_iff {ε : Type} {x : Except ε α} {f : α → β} {b : β} :
    x.map f = .ok b ↔ ∃ a, x = .ok a ∧ f a = b := by
  cases x with
  | error e => simp [Except.map]
  | ok a => simp [Except.map]

/-! ## Actions that keep something -/

/-- What holds before the action holds after it, however it ends. -/
def Keeps (inv : σ → Prop) (a : Action σ α) : Prop := ∀ s, inv s → inv (a.run s).2

variable {inv : σ → Prop}

theorem Silent.keeps {a : Action σ α} (ha : Silent a) : Keeps inv a := fun s hs => by rwa [ha s]

theorem Keeps.bind {a : Action σ α} {f : α → Action σ β} (ha : Keeps inv a)
    (hf : ∀ x, Keeps inv (f x)) : Keeps inv (a >>= f) := by
  intro s hs
  have hafter := ha s hs
  rw [run_bind]
  rcases hrun : a.run s with ⟨answer, s'⟩
  rw [hrun] at hafter
  cases answer with
  | ok x => exact hf x s' hafter
  | error e => exact hafter

theorem Keeps.tryCatch {a : Action σ α} {g : CatalogError → Action σ α} (ha : Keeps inv a)
    (hg : ∀ e, Keeps inv (g e)) : Keeps inv (tryCatch a g) := by
  intro s hs
  have hafter := ha s hs
  rw [run_tryCatch]
  rcases hrun : a.run s with ⟨answer, s'⟩
  rw [hrun] at hafter
  cases answer with
  | ok x => exact hafter
  | error e => exact hg e s' hafter

/-- What is undone keeps everything. -/
theorem Keeps.atomically {a : Action σ α} (ha : Keeps inv a) :
    Keeps inv (Action.atomically a) := by
  intro s hs
  have hafter := ha s hs
  rcases hrun : a.run s with ⟨answer, s'⟩
  rw [hrun] at hafter
  cases answer with
  | ok x =>
    rw [run_atomically_ok hrun]
    exact hafter
  | error e =>
    rw [run_atomically_error hrun]
    exact hs

/-- Nor does what is made of the answer matter. -/
theorem Keeps.answer {a : Action σ α} (ha : Keeps inv a) (f : α → β) :
    Keeps inv (do return f (← a)) := ha.bind fun x => (silent_pure (f x)).keeps

/-- A loop keeps what its body keeps. -/
theorem keeps_for {body : α → PUnit → Action σ (ForInStep PUnit)} (h : ∀ x, Keeps inv (body x ⟨⟩))
    (xs : List α) : Keeps inv (forIn xs PUnit.unit body) := by
  induction xs with
  | nil => exact (silent_pure _).keeps
  | cons x rest ih =>
    rw [List.forIn_cons]
    refine (h x).bind fun next => ?_
    cases next with
    | done _ => exact (silent_pure _).keeps
    | yield _ => exact ih

theorem keeps_filterMapM {f : α → Action σ (Option β)} (h : ∀ x, Keeps inv (f x)) (xs : List α) :
    Keeps inv (xs.filterMapM f) := by
  induction xs with
  | nil => exact (silent_pure _).keeps
  | cons x rest ih =>
    rw [List.filterMapM_cons]
    refine (h x).bind fun answer => ?_
    cases answer with
    | none => exact ih
    | some y => exact ih.bind fun ys => (silent_pure _).keeps

/-! ## Actions that end well or badly -/

/-- If the action succeeds it ends in a state of the first kind, if it fails in one of the
second. -/
def Ends (a : Action σ α) (s : σ) (good bad : σ → Prop) : Prop :=
  match a.run s with
  | (.ok _, s') => good s'
  | (.error _, s') => bad s'

variable {good bad : σ → Prop}

theorem ends_of_ok {a : Action σ α} {s s' : σ} {x : α} (h : a.run s = (.ok x, s')) (hs : good s') :
    Ends a s good bad := by
  rw [Ends, h]
  exact hs

theorem ends_of_error {a : Action σ α} {s s' : σ} {e : CatalogError} (h : a.run s = (.error e, s'))
    (hs : bad s') : Ends a s good bad := by
  rw [Ends, h]
  exact hs

theorem Ends.mono {a : Action σ α} {s : σ} {good' bad' : σ → Prop} (h : Ends a s good bad)
    (hgood : ∀ s, good s → good' s) (hbad : ∀ s, bad s → bad' s) : Ends a s good' bad' := by
  unfold Ends at h ⊢
  rcases hrun : a.run s with ⟨answer, s'⟩
  rw [hrun] at h
  cases answer with
  | ok x => exact hgood s' h
  | error e => exact hbad s' h

/-- What holds after the action holds in either case. -/
theorem ends_of_property {a : Action σ α} {s : σ} (h : good (a.run s).2) : Ends a s good good := by
  unfold Ends
  rcases hrun : a.run s with ⟨answer, s'⟩
  rw [hrun] at h
  cases answer <;> exact h

/-- What holds in either case holds after the action. -/
theorem Ends.property {a : Action σ α} {s : σ} (h : Ends a s good good) : good (a.run s).2 := by
  unfold Ends at h
  rcases hrun : a.run s with ⟨answer, s'⟩
  rw [hrun] at h
  cases answer <;> exact h

theorem Silent.ends {a : Action σ α} {s : σ} (ha : Silent a) (hgood : good s) (hbad : bad s) :
    Ends a s good bad := by
  have hstate := ha s
  rcases hrun : a.run s with ⟨answer, s'⟩
  rw [hrun] at hstate
  obtain rfl : s' = s := hstate
  cases answer with
  | ok x => exact ends_of_ok hrun hgood
  | error e => exact ends_of_error hrun hbad

theorem Silent.ends_bind {a : Action σ α} {f : α → Action σ β} {s : σ} (ha : Silent a)
    (hbad : bad s) (hf : ∀ x, Ends (f x) s good bad) : Ends (a >>= f) s good bad := by
  have hstate := ha s
  unfold Ends
  rw [run_bind]
  rcases hrun : a.run s with ⟨answer, s'⟩
  rw [hrun] at hstate
  obtain rfl : s' = s := hstate
  cases answer with
  | ok x => exact hf x
  | error e => exact hbad

theorem ends_ofExcept_bind {answer : Except CatalogError α} {f : α → Action σ β} {s : σ}
    (hbad : bad s) (hf : ∀ x, answer = .ok x → Ends (f x) s good bad) :
    Ends (ofExcept answer >>= f) s good bad := by
  cases answer with
  | ok x => exact hf x rfl
  | error e => exact hbad

theorem Ends.answer {a : Action σ α} {s : σ} (h : Ends a s good bad) (f : α → β) :
    Ends (do return f (← a)) s good bad := by
  unfold Ends at h ⊢
  rw [run_map]
  rcases hrun : a.run s with ⟨answer, s'⟩
  rw [hrun] at h
  cases answer <;> exact h

/-! ## Actions that match -/

/-- Run on related states, both actions answer the same and leave related states. -/
def Matches {τ : Type} (R : σ → τ → Prop) (a : Action σ α) (b : Action τ α) : Prop :=
  ∀ s t, R s t → (a.run s).1 = (b.run t).1 ∧ R (a.run s).2 (b.run t).2

variable {τ : Type} {R : σ → τ → Prop}

theorem Matches.bind {a : Action σ α} {b : Action τ α} {f : α → Action σ β} {g : α → Action τ β}
    (h : Matches R a b) (hf : ∀ x, Matches R (f x) (g x)) : Matches R (a >>= f) (b >>= g) := by
  intro s t hrel
  rcases h s t hrel with ⟨hanswer, hafter⟩
  rw [run_bind, run_bind]
  rcases hs : a.run s with ⟨answer, s'⟩
  rcases ht : b.run t with ⟨answer', t'⟩
  rw [hs, ht] at hanswer hafter
  obtain rfl : answer = answer' := hanswer
  cases answer with
  | ok x => exact hf x s' t' hafter
  | error e => exact ⟨rfl, hafter⟩

/-- What is made of the answers matches where the answers do. -/
theorem run_answer_matches {a : Action σ α} {b : Action τ α} {s : σ} {t : τ}
    (h : (a.run s).1 = (b.run t).1 ∧ R (a.run s).2 (b.run t).2) (f : α → β) :
    (run (do return f (← a)) s).1 = (run (do return f (← b)) t).1 ∧
      R (run (do return f (← a)) s).2 (run (do return f (← b)) t).2 := by
  rw [run_map, run_map, h.1]
  exact ⟨rfl, h.2⟩

theorem Matches.answer {a : Action σ α} {b : Action τ α} (h : Matches R a b) (f : α → β) :
    Matches R (do return f (← a)) (do return f (← b)) :=
  fun s t hrel => run_answer_matches (h s t hrel) f

theorem matches_ofExcept (answer : Except CatalogError α) :
    Matches R (ofExcept answer) (ofExcept answer) := fun _ _ hrel => ⟨rfl, hrel⟩

theorem matches_throw (e : CatalogError) :
    Matches R (throw e : Action σ α) (throw e : Action τ α) := fun _ _ hrel => ⟨rfl, hrel⟩

theorem matches_pure (x : α) : Matches R (pure x : Action σ α) (pure x : Action τ α) :=
  fun _ _ hrel => ⟨rfl, hrel⟩

/-- A reading is matched by what answers the same and keeps states related. -/
theorem matches_reading {a : Action σ α} {f : τ → Except CatalogError α}
    (h : ∀ s t, R s t → ∃ s', a.run s = (f t, s') ∧ R s' t) : Matches R a (reading f) := by
  intro s t hrel
  rcases h s t hrel with ⟨s', hrun, hafter⟩
  rw [hrun]
  exact ⟨rfl, hafter⟩

theorem matches_mapM {f : α → Action σ β} {g : α → Action τ β}
    (h : ∀ x, Matches R (f x) (g x)) (xs : List α) : Matches R (xs.mapM f) (xs.mapM g) := by
  induction xs with
  | nil => exact matches_pure []
  | cons x rest ih =>
    rw [List.mapM_cons, List.mapM_cons]
    exact (h x).bind fun y => ih.bind fun ys => matches_pure (y :: ys)

/-! ## Lists -/

/-- A list is worked through when each member is. -/
theorem mapM_eq_ok {ε : Type} {f : α → Except ε β} {g : α → β} {xs : List α}
    (h : ∀ x ∈ xs, f x = .ok (g x)) : xs.mapM f = .ok (xs.map g) := by
  induction xs with
  | nil => rfl
  | cons x rest ih =>
    rw [List.mapM_cons, h x List.mem_cons_self, ih fun y hy => h y (List.mem_cons_of_mem x hy)]
    rfl

/-- Reading for each member of a list. -/
theorem run_mapM {f : α → Action σ β} {g : α → β} {xs : List α} {s : σ}
    (h : ∀ x ∈ xs, (f x).run s = (.ok (g x), s)) : run (xs.mapM f) s = (.ok (xs.map g), s) := by
  induction xs with
  | nil => rfl
  | cons x rest ih =>
    rw [List.mapM_cons, run_bind_ok (h x List.mem_cons_self),
      run_bind_ok (ih fun y hy => h y (List.mem_cons_of_mem x hy))]
    rfl

/-- Reading for each member of a list while something is built up. -/
theorem run_foldlM {f : β → α → Action σ β} {g : β → α → β} {xs : List α} {s : σ}
    (h : ∀ b, ∀ x ∈ xs, (f b x).run s = (.ok (g b x), s)) (b : β) :
    run (xs.foldlM f b) s = (.ok (xs.foldl g b), s) := by
  induction xs generalizing b with
  | nil => rfl
  | cons x rest ih =>
    rw [List.foldlM_cons, run_bind_ok (h b x List.mem_cons_self)]
    exact ih (fun b y hy => h b y (List.mem_cons_of_mem x hy)) (g b x)

/-- Known steps that each answer something or nothing. -/
theorem run_filterMapM {f : α → Action σ (Option β)} {g : α → Option β} {step : σ → α → σ}
    {inv : σ → Prop} {xs : List α}
    (hbody : ∀ x ∈ xs, ∀ s, inv s → (f x).run s = (.ok (g x), step s x) ∧ inv (step s x))
    {s : σ} (h : inv s) : run (xs.filterMapM f) s = (.ok (xs.filterMap g), xs.foldl step s) := by
  induction xs generalizing s with
  | nil => rfl
  | cons x rest ih =>
    rcases hbody x List.mem_cons_self s h with ⟨hone, hkept⟩
    have hrest := ih (fun y hy => hbody y (List.mem_cons_of_mem x hy)) hkept
    -- the step is made whether or not there is an answer
    rw [List.filterMapM_cons, run_bind_ok hone, List.filterMap_cons]
    cases hg : g x with
    | none => exact hrest
    | some b =>
      dsimp only
      rw [run_bind_ok hrest]
      rfl

/-! ## Loops -/

/-- A loop whose body keeps an invariant of what is left and what was reached so far comes
to its end. -/
theorem run_for {body : α → PUnit → Action σ (ForInStep PUnit)} {inv : List α → σ → Prop}
    (hbody : ∀ x rest s, inv (x :: rest) s →
      ∃ s', (body x ⟨⟩).run s = (.ok (.yield ⟨⟩), s') ∧ inv rest s')
    {xs : List α} {s : σ} (h : inv xs s) :
    ∃ s', run (forIn xs PUnit.unit body) s = (.ok ⟨⟩, s') ∧ inv [] s' := by
  induction xs generalizing s with
  | nil => exact ⟨s, rfl, h⟩
  | cons x rest ih =>
    -- the turn for `x` leaves the invariant of the rest, from which the loop goes on
    rcases hbody x rest s h with ⟨s₁, hrun, hinv⟩
    rcases ih hinv with ⟨s', hrest, hend⟩
    refine ⟨s', ?_, hend⟩
    rw [List.forIn_cons, run_bind_ok hrun]
    exact hrest

/-- A loop whose body makes a known step folds that step. -/
theorem run_for_foldl {body : α → PUnit → Action σ (ForInStep PUnit)} {step : σ → α → σ}
    {inv : σ → Prop} {xs : List α}
    (hbody : ∀ x ∈ xs, ∀ s, inv s →
      (body x ⟨⟩).run s = (.ok (.yield ⟨⟩), step s x) ∧ inv (step s x))
    {s : σ} (h : inv s) :
    run (forIn xs PUnit.unit body) s = (.ok ⟨⟩, xs.foldl step s) := by
  induction xs generalizing s with
  | nil => rfl
  | cons x rest ih =>
    rcases hbody x List.mem_cons_self s h with ⟨hone, hkept⟩
    rw [List.forIn_cons, run_bind_ok hone]
    exact ih (fun y hy => hbody y (List.mem_cons_of_mem x hy)) hkept

end ArchiveCatalog.Action
