import ArchiveCatalog.Proofs.History
import ArchiveCatalog.Proofs.Metadata

namespace ArchiveCatalog

/-! # Writers that take turns

Several writers add and remove metadata of one product. Their calls are made in some order that
keeps the order of each writer. As long as no value is touched by two of them, every value is in
the end what its writer would have made of it alone, so the order of the turns does not show. A
call is told by what it does to a single value, whatever else it rewrites.
-/

/-! ## Calls -/

/-- A call of a writer on the metadata of a product. -/
inductive Edit
  | add (m : Metadata)
  | remove (m : Metadata)
  deriving DecidableEq, Repr

namespace Edit

/-- The elements and values that a call names. -/
def touched : Edit → List (String × String)
  | add m | remove m => m.pairs

/-- The operation that a call on a product is. -/
def operation (p : Product) : Edit → Operation
  | add m => .addMetadata m p
  | remove m => .removeMetadata m p

/-- Whether a value is there after a call, given whether it was there before. Of the values that
are added those of some elements are kept. -/
def leaves (kept : List String) (pair : String × String) (there : Bool) : Edit → Bool
  | add m => there || (kept.contains pair.1 && m.pairs.contains pair)
  | remove m => there && !m.pairs.contains pair

/-- Whether a value is there after the calls of a writer. -/
def left (kept : List String) (pair : String × String) (there : Bool) (calls : List Edit) : Bool :=
  calls.foldl (leaves kept pair) there

/-- What a call makes of metadata, as far as there are any. -/
def on (kept : List String) (stored : Option Metadata) : Edit → Option Metadata
  | add m => some ((stored.getD .empty).merge (m.reduce kept))
  | remove m => stored.map (·.removeValues m)

variable {kept : List String} {pair : String × String} {call : Edit} {calls : List Edit}

theorem leaves_of_not_mem (h : pair ∉ call.touched) (there : Bool) :
    call.leaves kept pair there = there := by
  cases call with
  | add m =>
    have hnot : m.pairs.contains pair = false := by simpa [touched] using h
    rw [leaves, hnot, Bool.and_false, Bool.or_false]
  | remove m =>
    have hnot : m.pairs.contains pair = false := by simpa [touched] using h
    rw [leaves, hnot, Bool.not_false, Bool.and_true]

theorem left_of_not_mem (h : ∀ call ∈ calls, pair ∉ call.touched) (there : Bool) :
    left kept pair there calls = there := by
  induction calls with
  | nil => rfl
  | cons call rest ih =>
    rw [left, List.foldl_cons, leaves_of_not_mem (h call List.mem_cons_self)]
    exact ih fun later hlater => h later (List.mem_cons_of_mem call hlater)

/-- If no elements are kept, no value comes. -/
theorem left_nil (pair : String × String) (calls : List Edit) : left [] pair false calls = false := by
  induction calls with
  | nil => rfl
  | cons call rest ih =>
    cases call with
    | add m => exact ih
    | remove m => exact ih

theorem mem_on (kept : List String) (stored : Option Metadata) (call : Edit) (element v : String) :
    v ∈ ((call.on kept stored).getD .empty).values element ↔
      call.leaves kept (element, v) (decide (v ∈ (stored.getD .empty).values element)) = true := by
  cases call with
  | add m =>
    rw [on, leaves, Option.getD_some, Metadata.values_merge, Metadata.mem_foldl_appendNew,
      Metadata.values_reduce]
    by_cases hkept : element ∈ kept
    · simp [hkept, Metadata.mem_pairs]
    · simp [hkept]
  | remove m =>
    cases stored with
    | none => simp [on, leaves, Metadata.values_empty]
    | some n => simp [on, leaves, Metadata.values_removeValues, Metadata.mem_pairs]

/-- Calls leave of single values what they make of all metadata. -/
theorem mem_foldl_on (kept : List String) (stored : Option Metadata) (calls : List Edit)
    (element v : String) :
    v ∈ ((calls.foldl (on kept) stored).getD .empty).values element ↔
      left kept (element, v) (decide (v ∈ (stored.getD .empty).values element)) calls = true := by
  induction calls generalizing stored with
  | nil => exact decide_eq_true_iff.symm
  | cons call rest ih =>
    have hone : decide (v ∈ ((call.on kept stored).getD .empty).values element) =
        call.leaves kept (element, v) (decide (v ∈ (stored.getD .empty).values element)) := by
      rw [Bool.eq_iff_iff, decide_eq_true_iff]
      exact mem_on kept stored call element v
    rw [List.foldl_cons, ih, hone]
    rfl

/-- There are metadata after calls if there were any before, or something is added. -/
theorem isSome_foldl_on (kept : List String) (stored : Option Metadata) (calls : List Edit) :
    (calls.foldl (on kept) stored).isSome = true ↔
      stored.isSome = true ∨ ∃ m, .add m ∈ calls := by
  induction calls generalizing stored with
  | nil => simp
  | cons call rest ih =>
    rw [List.foldl_cons, ih]
    cases call with
    | add m => simp [on]
    | remove m => simp [on]

end Edit

/-! ## Interleavings -/

section Interleavings

variable {ι : Type} [DecidableEq ι]

/-- The schedule has the calls of every writer, and each writer's in their order. -/
def Interleaves (calls : ι → List Edit) (schedule : List (ι × Edit)) : Prop :=
  ∀ w, (schedule.filter (·.1 = w)).map Prod.snd = calls w

/-- No value is touched by two writers. -/
def Apart (calls : ι → List Edit) : Prop :=
  ∀ w w', w ≠ w' → ∀ call ∈ calls w, ∀ call' ∈ calls w', ∀ pair ∈ call.touched,
    pair ∉ call'.touched

variable {calls : ι → List Edit} {schedule schedule' : List (ι × Edit)} {w : ι}
  {pair : String × String}

theorem Interleaves.mem_iff (h : Interleaves calls schedule) {call : Edit} :
    call ∈ calls w ↔ (w, call) ∈ schedule := by
  rw [← h w]
  simp

/-- The turns of others that do not touch a value may be left out. -/
theorem left_filter (kept : List String)
    (h : ∀ turn ∈ schedule, turn.1 ≠ w → pair ∉ turn.2.touched) (there : Bool) :
    Edit.left kept pair there (schedule.map Prod.snd) =
      Edit.left kept pair there ((schedule.filter (·.1 = w)).map Prod.snd) := by
  induction schedule generalizing there with
  | nil => rfl
  | cons turn rest ih =>
    have hrest := ih fun later hlater => h later (List.mem_cons_of_mem turn hlater)
    by_cases hown : turn.1 = w
    · rw [List.filter_cons_of_pos (by simpa using hown)]
      exact hrest _
    · rw [List.filter_cons_of_neg (by simpa using hown), ← hrest, List.map_cons, Edit.left,
        List.foldl_cons, Edit.leaves_of_not_mem (h turn List.mem_cons_self hown)]
      rfl

/-- What no other writer touches is as its writer leaves it. -/
theorem Interleaves.left_eq (h : Interleaves calls schedule) (kept : List String)
    (hown : ∀ w', w' ≠ w → ∀ call ∈ calls w', pair ∉ call.touched) (there : Bool) :
    Edit.left kept pair there (schedule.map Prod.snd) = Edit.left kept pair there (calls w) := by
  rw [← h w]
  exact left_filter kept (fun turn hturn hother => hown turn.1 hother turn.2 (h.mem_iff.2 hturn))
    there

/-- Two interleavings of the same calls leave the same. -/
theorem Interleaves.left_congr (h : Interleaves calls schedule) (h' : Interleaves calls schedule')
    (hapart : Apart calls) (kept : List String) (pair : String × String) (there : Bool) :
    Edit.left kept pair there (schedule.map Prod.snd) =
      Edit.left kept pair there (schedule'.map Prod.snd) := by
  by_cases htouched : ∃ w, ∃ call ∈ calls w, pair ∈ call.touched
  · rcases htouched with ⟨w, call, hcall, hpair⟩
    have hown : ∀ w', w' ≠ w → ∀ call' ∈ calls w', pair ∉ call'.touched := fun w' hne call' hcall' =>
      hapart w w' hne.symm call hcall call' hcall' pair hpair
    rw [h.left_eq kept hown, h'.left_eq kept hown]
  · have hnone : ∀ {turns : List (ι × Edit)}, Interleaves calls turns →
        Edit.left kept pair there (turns.map Prod.snd) = there := by
      refine fun hturns => Edit.left_of_not_mem (fun call hcall hpair => htouched ?_) there
      rcases List.mem_map.1 hcall with ⟨turn, hturn, rfl⟩
      exact ⟨turn.1, turn.2, hturns.mem_iff.2 hturn, hpair⟩
    rw [hnone h, hnone h']

theorem Interleaves.exists_add_iff (h : Interleaves calls schedule) :
    (∃ m, .add m ∈ schedule.map Prod.snd) ↔ ∃ w m, .add m ∈ calls w := by
  constructor
  · rintro ⟨m, hm⟩
    rcases List.mem_map.1 hm with ⟨turn, hturn, hadd⟩
    exact ⟨turn.1, m, h.mem_iff.2 (hadd ▸ hturn)⟩
  · rintro ⟨w, m, hm⟩
    exact ⟨m, List.mem_map.2 ⟨(w, .add m), h.mem_iff.1 hm, rfl⟩⟩

end Interleavings

/-! ## Turns of a catalog -/

namespace Catalog

variable {σ ι : Type} [DecidableEq ι]

/-- The values of an element that are read of a product, none if there is nothing to read. -/
def valuesRead (c : Catalog σ) (s : σ) (p : Product) (element : String) : List String :=
  match ((c.metadata p).run s).1 with
  | .ok m => m.values element
  | .error _ => []

/-- The turns of a schedule. Every writer has a copy of the product. -/
def turns (copies : ι → Product) (schedule : List (ι × Edit)) : List Operation :=
  schedule.map fun turn => turn.2.operation (copies turn.1)

/-- Writers that take turns on the product of an id lose nothing. -/
structure LosesNothing (c : Catalog σ) (s : σ) (id : String) (kept : List String)
    (copies : ι → Product) (calls : ι → List Edit) : Prop where
  /-- Metadata that could be read before can be read. -/
  readable : ∀ schedule, Interleaves calls schedule → ∀ p, p.id = some id →
    (∃ m, ((c.metadata p).run s).1 = .ok m) →
    ∃ m, ((c.metadata p).run (c.after s (turns copies schedule))).1 = .ok m
  /-- What no other writer touches is as its writer leaves it. -/
  left : ∀ schedule, Interleaves calls schedule → ∀ p, p.id = some id → ∀ w element value,
    (∀ w', w' ≠ w → ∀ call ∈ calls w', (element, value) ∉ call.touched) →
    (value ∈ c.valuesRead (c.after s (turns copies schedule)) p element ↔
      Edit.left kept (element, value) ((c.valuesRead s p element).contains value) (calls w) = true)
  /-- The order of the turns shows in no set of values. -/
  values : ∀ schedule schedule', Interleaves calls schedule → Interleaves calls schedule' →
    ∀ p, p.id = some id → ∀ element value,
    (value ∈ c.valuesRead (c.after s (turns copies schedule)) p element ↔
      value ∈ c.valuesRead (c.after s (turns copies schedule')) p element)
  /-- The order of the turns shows in no answer to a query. -/
  query : ∀ schedule schedule', Interleaves calls schedule → Interleaves calls schedule' →
    ∀ q u, ((c.query q u).run (c.after s (turns copies schedule))).1 =
      ((c.query q u).run (c.after s (turns copies schedule'))).1

/-- Writers that take turns on the product of an id succeed. -/
structure Succeeds (c : Catalog σ) (s : σ) (id : String) (copies : ι → Product)
    (calls : ι → List Edit) : Prop where
  outcomes : ∀ schedule, Interleaves calls schedule →
    ∀ outcome ∈ c.outcomes s (turns copies schedule), outcome = .ok .done
  /-- Once any are added there are metadata. -/
  described : ∀ schedule, Interleaves calls schedule → (∃ w m, .add m ∈ calls w) →
    ∀ p, p.id = some id →
    ∃ m, ((c.metadata p).run (c.after s (turns copies schedule))).1 = .ok m

variable {c : Catalog σ} {id : String} {kept : List String} {s : σ} {copies : ι → Product}
  {calls : ι → List Edit}

/-- Where no call changes anything and no metadata can be read nothing is lost. -/
theorem losesNothing_of_fails
    (hcalls : ∀ (p : Product) (call : Edit), p.id = some id →
      ((c.perform (call.operation p)).run s).2 = s)
    (hreads : ∀ p : Product, p.id = some id → ∃ f, ((c.metadata p).run s).1 = .error f)
    (hcopies : ∀ w, (copies w).id = some id) : c.LosesNothing s id [] copies calls := by
  have hafter : ∀ schedule, c.after s (turns copies schedule) = s := by
    intro schedule
    induction schedule with
    | nil => rfl
    | cons turn rest ih =>
      show c.after ((c.perform (turn.2.operation (copies turn.1))).run s).2 (turns copies rest) = s
      rw [hcalls _ turn.2 (hcopies turn.1), ih]
  have hnone : ∀ p : Product, p.id = some id → ∀ element, c.valuesRead s p element = [] := by
    intro p hp element
    rcases hreads p hp with ⟨f, hread⟩
    rw [valuesRead, hread]
  refine ⟨?_, ?_, ?_, ?_⟩
  · intro schedule _ p _ hbefore
    rwa [hafter]
  · intro schedule _ p hp w element value _
    rw [hafter, hnone p hp, List.contains_nil, Edit.left_nil]
    simp
  · intro schedule schedule' _ _ p _ element value
    rw [hafter, hafter]
  · intro schedule schedule' _ _ q u
    rw [hafter, hafter]

/-- What the metadata of the product of an id are is told by something that holds of states. Calls
change them as they say, reads show them, and queries tell no more of them than their values. -/
structure Tracks (c : Catalog σ) (id : String) (kept : List String)
    (holding : Option Metadata → σ → Prop) : Prop where
  performs : ∀ (p : Product) (call : Edit) x s, p.id = some id → holding x s →
    holding (call.on kept x) ((c.perform (call.operation p)).run s).2
  reads : ∀ (p : Product) m s, p.id = some id → holding (some m) s →
    ∃ n, ((c.metadata p).run s).1 = .ok n ∧ n.SameValues m
  fails : ∀ (p : Product) s, p.id = some id → holding none s →
    ∃ f, ((c.metadata p).run s).1 = .error f
  queries : ∀ q u x y s s', holding x s → holding y s' → x.isSome = y.isSome →
    (x.getD .empty).SameValues (y.getD .empty) →
    ((c.query q u).run s).1 = ((c.query q u).run s').1

namespace Tracks

variable {holding : Option Metadata → σ → Prop} {x : Option Metadata}

omit [DecidableEq ι] in
/-- Each turn changes what is held. -/
theorem after (h : c.Tracks id kept holding) (hcopies : ∀ w, (copies w).id = some id)
    (schedule : List (ι × Edit)) (hs : holding x s) :
    holding ((schedule.map Prod.snd).foldl (Edit.on kept) x)
      (c.after s (turns copies schedule)) := by
  induction schedule generalizing x s with
  | nil => exact hs
  | cons turn rest ih => exact ih (h.performs _ turn.2 x s (hcopies turn.1) hs)

omit [DecidableEq ι] in
theorem mem_valuesRead (h : c.Tracks id kept holding) (hs : holding x s) {p : Product}
    (hp : p.id = some id) {element value : String} :
    value ∈ c.valuesRead s p element ↔ value ∈ (x.getD .empty).values element := by
  cases x with
  | some m =>
    rcases h.reads p m s hp hs with ⟨n, hread, hsame⟩
    rw [valuesRead, hread]
    exact hsame element value
  | none =>
    rcases h.fails p s hp hs with ⟨f, hread⟩
    simp [valuesRead, hread, Metadata.values_empty]

/-- What is tracked is not lost. -/
theorem losesNothing (h : c.Tracks id kept holding) (hcopies : ∀ w, (copies w).id = some id)
    (hapart : Apart calls) (hs : holding x s) : c.LosesNothing s id kept copies calls := by
  have hafter : ∀ schedule, holding ((schedule.map Prod.snd).foldl (Edit.on kept) x)
      (c.after s (turns copies schedule)) := fun schedule => h.after hcopies schedule hs
  -- a value is read in the end if the calls leave it
  have hread : ∀ schedule p, p.id = some id → ∀ element value,
      (value ∈ c.valuesRead (c.after s (turns copies schedule)) p element ↔
        Edit.left kept (element, value) (decide (value ∈ (x.getD .empty).values element))
          (schedule.map Prod.snd) = true) := by
    intro schedule p hp element value
    rw [h.mem_valuesRead (hafter schedule) hp, Edit.mem_foldl_on]
  refine ⟨?_, ?_, ?_, ?_⟩
  · rintro schedule - p hp ⟨m, hbefore⟩
    -- what can be read is held, and metadata stay
    have hheld : x.isSome = true := by
      cases x with
      | some _ => rfl
      | none =>
        rcases h.fails p s hp hs with ⟨f, hread⟩
        rw [hread] at hbefore
        cases hbefore
    rcases Option.isSome_iff_exists.1 ((Edit.isSome_foldl_on kept x _).2 (.inl hheld)) with
      ⟨n, hn⟩
    rcases h.reads p n _ hp (hn ▸ hafter schedule) with ⟨m, hread, -⟩
    exact ⟨m, hread⟩
  · intro schedule hschedule p hp w element value hown
    have hbefore : decide (value ∈ (x.getD .empty).values element) =
        (c.valuesRead s p element).contains value := by
      rw [Bool.eq_iff_iff, decide_eq_true_iff, List.contains_iff_mem, h.mem_valuesRead hs hp]
    rw [hread schedule p hp, hschedule.left_eq kept hown, hbefore]
  · intro schedule schedule' hone hother p hp element value
    rw [hread schedule p hp, hread schedule' p hp, hone.left_congr hother hapart]
  · intro schedule schedule' hone hother q u
    refine h.queries q u _ _ _ _ (hafter schedule) (hafter schedule') ?_ ?_
    · rw [Bool.eq_iff_iff, Edit.isSome_foldl_on, Edit.isSome_foldl_on, hone.exists_add_iff,
        hother.exists_add_iff]
    · intro element value
      rw [Edit.mem_foldl_on, Edit.mem_foldl_on, hone.left_congr hother hapart]

/-- If single calls succeed, all of them do. -/
theorem succeeds (h : c.Tracks id kept holding)
    (hok : ∀ (p : Product) (call : Edit) x s, p.id = some id → holding x s →
      ((c.perform (call.operation p)).run s).1 = .ok .done)
    (hcopies : ∀ w, (copies w).id = some id) (hs : holding x s) :
    c.Succeeds s id copies calls := by
  refine ⟨?_, ?_⟩
  · rintro schedule -
    induction schedule generalizing x s with
    | nil => exact fun _ houtcome => absurd houtcome List.not_mem_nil
    | cons turn rest ih =>
      have hcopy := hcopies turn.1
      exact List.forall_mem_cons.2
        ⟨hok _ turn.2 x s hcopy hs, ih (h.performs _ turn.2 x s hcopy hs)⟩
  · intro schedule hschedule hadded p hp
    have hheld := (Edit.isSome_foldl_on kept x _).2 (.inr (hschedule.exists_add_iff.2 hadded))
    rcases Option.isSome_iff_exists.1 hheld with ⟨n, hn⟩
    rcases h.reads p n _ hp (hn ▸ h.after hcopies schedule hs) with ⟨m, hread, -⟩
    exact ⟨m, hread⟩

end Tracks

end Catalog

end ArchiveCatalog
