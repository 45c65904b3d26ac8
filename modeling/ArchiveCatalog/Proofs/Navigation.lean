import ArchiveCatalog.Catalog.Navigation
import ArchiveCatalog.Proofs.Listing

namespace ArchiveCatalog

/-! # Leafing through every product

The pages of a type are the sheets into which its products are cut. Asked for the next page again
and again, a catalog answers one sheet after the other and stays on the last; asked for the
previous page it goes back the same way. All of this needs to be known of page requests is what
they answer while the catalog stands for the same ledger.
-/

namespace Action

variable {σ α β : Type} {inv : σ → Prop}

/-- While something holds of states the action answers the same, and goes on holding. -/
def Answers (inv : σ → Prop) (a : Action σ α) (x : α) : Prop :=
  ∀ s, inv s → ∃ s', a.run s = (.ok x, s') ∧ inv s'

theorem answers_pure (x : α) : Answers inv (pure x : Action σ α) x := fun s hs => ⟨s, rfl, hs⟩

theorem Answers.bind {a : Action σ α} {f : α → Action σ β} {x : α} {y : β} (ha : Answers inv a x)
    (hf : Answers inv (f x) y) : Answers inv (a >>= f) y := by
  intro s hs
  rcases ha s hs with ⟨s₁, hrun, hs₁⟩
  rcases hf s₁ hs₁ with ⟨s', hrest, hs'⟩
  exact ⟨s', (run_bind_ok hrun).trans hrest, hs'⟩

theorem Answers.run {a : Action σ α} {x : α} (h : Answers inv a x) {s : σ} (hs : inv s) :
    (a.run s).1 = .ok x := by
  rcases h s hs with ⟨s', hrun, -⟩
  rw [hrun]

end Action

open ArchiveCatalog.Action (Answers)

/-! ## Sheets -/

/-- The number of pages to leaf through, one of them if there are no products. -/
def sheetCount (size : Nat) (listed : List Product) : Nat :=
  max 1 (Page.totalFor listed.length size)

/-- The page that follows so many others; without products it is blank. -/
def sheet (size : Nat) (listed : List Product) (i : Nat) : Page :=
  if listed = [] then Page.blank size
  else ⟨i + 1, Page.totalFor listed.length size, size, listed.length,
    (listed.drop (i * size)).take size⟩

/-- The pages to leaf through. -/
def sheets (size : Nat) (listed : List Product) : List Page :=
  (List.range (sheetCount size listed)).map (sheet size listed)

/-- The page to which so many steps lead from the first one; there is no step from the last. -/
def sheetAfter (size : Nat) (listed : List Product) (steps : Nat) : Page :=
  sheet size listed (min steps (sheetCount size listed - 1))

section Sheets

variable {size : Nat} {listed : List Product} {i : Nat}

theorem sheetCount_pos : 0 < sheetCount size listed :=
  Nat.lt_of_lt_of_le Nat.zero_lt_one (Nat.le_max_left _ _)

theorem length_sheets : (sheets size listed).length = sheetCount size listed := by
  rw [sheets, List.length_map, List.length_range]

theorem getElem?_sheets (h : i < sheetCount size listed) :
    (sheets size listed)[i]? = some (sheet size listed i) := by
  rw [sheets, List.getElem?_map, List.getElem?_range h]
  rfl

theorem lt_sheetCount_of_getElem? {page : Page} (h : (sheets size listed)[i]? = some page) :
    i < sheetCount size listed ∧ page = sheet size listed i := by
  have hlt : i < sheetCount size listed := by
    rw [← length_sheets]
    exact (List.getElem?_eq_some_iff.1 h).1
  rw [getElem?_sheets hlt] at h
  exact ⟨hlt, (Option.some.inj h).symm⟩

/-- So many steps and more lead through all sheets and then stay on the last. -/
theorem map_sheetAfter_range (size : Nat) (listed : List Product) (more : Nat) :
    (List.range (sheetCount size listed + more)).map (sheetAfter size listed) =
      sheets size listed ++
        List.replicate more (sheet size listed (sheetCount size listed - 1)) := by
  rw [List.range_add, List.map_append, List.map_map]
  congr 1
  · refine List.map_congr_left fun i hi => congrArg (sheet size listed) ?_
    have hlt := List.mem_range.1 hi
    omega
  · have hstays : ∀ k ∈ List.range more,
        (sheetAfter size listed ∘ (sheetCount size listed + ·)) k =
          sheet size listed (sheetCount size listed - 1) :=
      fun k _ => congrArg (sheet size listed)
        (Nat.min_eq_right (Nat.le_trans (Nat.sub_le _ _) (Nat.le_add_right _ k)))
    rw [List.map_congr_left hstays, List.map_const', List.length_range]

theorem sheetCount_of_ne_nil (hsize : 0 < size) (hne : listed ≠ []) :
    sheetCount size listed = Page.totalFor listed.length size := by
  exact Nat.max_eq_right ((totalFor_pos_iff hsize).2 (List.length_pos_iff.2 hne))

theorem sheetCount_nil (hsize : 0 < size) : sheetCount size ([] : List Product) = 1 := by
  have htotal : Page.totalFor 0 size = 0 := by
    rw [totalFor_eq hsize]
    exact Nat.div_eq_of_lt (by omega)
  unfold sheetCount
  rw [List.length_nil, htotal]
  rfl

theorem products_sheet : (sheet size listed i).products = (listed.drop (i * size)).take size := by
  unfold sheet
  split
  · rename_i hnil
    rw [hnil, List.drop_nil, List.take_nil]
    rfl
  · rfl

/-- All sheets together have all products. -/
theorem flatMap_sheets (hsize : 0 < size) : (sheets size listed).flatMap Page.products = listed := by
  have hall : listed.length ≤ sheetCount size listed * size :=
    Nat.le_trans (le_totalFor_mul hsize _) (Nat.mul_le_mul_right _ (Nat.le_max_right _ _))
  rw [sheets, List.flatMap_map]
  simp only [products_sheet]
  rw [PageWindow.flatMap_range_pieces, List.take_of_length_le hall]

theorem isLast_sheet (hsize : 0 < size) (hi : i < sheetCount size listed) :
    (sheet size listed i).isLast = true ↔ i + 1 = sheetCount size listed := by
  by_cases hnil : listed = []
  · subst hnil
    rw [sheetCount_nil hsize] at hi ⊢
    have hblank : sheet size [] i = Page.blank size := if_pos rfl
    rw [hblank]
    constructor
    · intro _
      omega
    · intro _
      rfl
  · rw [sheetCount_of_ne_nil hsize hnil] at hi ⊢
    rw [sheet, if_neg hnil, Page.isLast, decide_eq_true_eq]
    dsimp only
    omega

theorem isFirst_sheet : (sheet size listed i).isFirst = true ↔ i = 0 ∨ listed = [] := by
  by_cases hnil : listed = []
  · have hblank : sheet size listed i = Page.blank size := if_pos hnil
    rw [hblank]
    exact ⟨fun _ => .inr hnil, fun _ => rfl⟩
  · rw [sheet, if_neg hnil, Page.isFirst, decide_eq_true_eq]
    dsimp only
    constructor
    · intro hle
      exact .inl (by omega)
    · rintro (rfl | h)
      · omega
      · exact absurd h hnil

/-- Where there are two pages or more there are products. -/
theorem ne_nil_of_lt (hsize : 0 < size) (hi : i + 1 < sheetCount size listed) : listed ≠ [] := by
  rintro rfl
  rw [sheetCount_nil hsize] at hi
  omega

/-- A signed word holds the number of every page. -/
theorem sheetCount_lt (hsize : 0 < size) (hfew : listed.length < 2 ^ 63) :
    sheetCount size listed < 2 ^ 63 := by
  by_cases hnil : listed = []
  · rw [hnil, sheetCount_nil hsize]
    decide
  · rw [sheetCount_of_ne_nil hsize hnil]
    refine Nat.lt_of_le_of_lt ?_ hfew
    by_contra hlt
    have hmore := (lt_totalFor_iff hsize).1 (Nat.not_le.1 hlt)
    have hle : listed.length * 1 ≤ listed.length * size := Nat.mul_le_mul_left _ hsize
    omega

/-- What a page request answers, given all products. -/
def numbered (size : Nat) (listed : List Product) (number : Int) : Except CatalogError Page := do
  let window ← (PageWindow.resolve number size listed.length).mapError CatalogError.query
  return window.page size listed.length (window.cut size listed)

/-- Page numbers count sheets from 1. -/
theorem numbered_eq (hsize : 0 < size) (hfew : listed.length < 2 ^ 63)
    (hi : i < sheetCount size listed) :
    numbered size listed ((i : Int) + 1) = .ok (sheet size listed i) := by
  have hindex : (i : Int) + 1 = (i + 1 : Nat) := rfl
  have hvalid : (i : Int) + 1 = allResults ∨ 1 ≤ (i : Int) + 1 := .inr (by omega)
  unfold numbered
  by_cases hnil : listed = []
  · rcases PageWindow.exists_resolve hsize hvalid listed.length with ⟨w, hw, hblank, -⟩
    rw [hw, hblank (List.length_eq_zero_iff.2 hnil), sheet, if_pos hnil]
    rfl
  · have hcount : listed.length ≤ greatestCount := by
      unfold greatestCount
      omega
    rw [sheetCount_of_ne_nil hsize hnil] at hi
    rw [hindex, PageWindow.resolve_page hsize hcount (Nat.le_add_left 1 i) hi, sheet, if_neg hnil]
    dsimp only [Except.mapError, bind, Except.bind, pure, Except.pure, PageWindow.page]
    rw [PageWindow.cut_slice hcount, Nat.add_sub_cancel]

end Sheets

/-! ## Turning pages -/

namespace Catalog

variable {σ : Type} {c : Catalog σ} {u : ProductType}

/-- Asks for the next page so many times, starting from a page or from none. -/
def walk (c : Catalog σ) (u : ProductType) : Nat → Option Page → Action σ (List Page)
  | 0, _ => return []
  | n + 1, current => do
    let page ← c.nextPage u current
    return page :: (← c.walk u n (some page))

/-- In a state the pages lead through the products listed for a type. -/
structure LeafsThrough (c : Catalog σ) (u : ProductType) (s : σ) (listed : List Product)
    (pages : List Page) : Prop where
  /-- There are as many pages as the products fill, or one that is blank. -/
  count : pages.length = max 1 ((listed.length + c.pageSize - 1) / c.pageSize)
  blank : listed = [] → pages = [Page.blank c.pageSize]
  /-- The products on the pages are those of the type in their order, none twice. -/
  listing : ((c.productsOfType u).run s).1 = .ok listed
  products : pages.flatMap Page.products = listed
  once : (listed.map Product.id).Nodup
  /-- The last page, and no other, says that it is. -/
  isLast : ∀ i page, pages[i]? = some page → (page.isLast = true ↔ i + 1 = pages.length)
  /-- The next page, asked for again and again, is each of them once and then the last for good. -/
  walk : ∀ last, pages.getLast? = some last → ∀ more,
    ((c.walk u (pages.length + more) none).run s).1 = .ok (pages ++ List.replicate more last)
  lastPage : ∀ last, pages.getLast? = some last →
    ((c.lastPage u).run s).1 = .ok last ∧ ((c.nextPage u (some last)).run s).1 = .ok last
  firstPage : ∀ first, pages.head? = some first →
    ((c.firstPage u).run s).1 = .ok first ∧ ((c.previousPage u (some first)).run s).1 = .ok first
  /-- Of two pages that follow each other, each is turned to from the other. -/
  inner : ∀ i page following, pages[i]? = some page → pages[i + 1]? = some following →
    ((c.nextPage u (some page)).run s).1 = .ok following ∧
      ((c.previousPage u (some following)).run s).1 = .ok page

/-- Whatever is read in between, the same pages lead through the products of the type. -/
def WalksPages (c : Catalog σ) (u : ProductType) (s : σ) : Prop :=
  ∃ listed pages, ∀ reads : List Operation, (∀ op ∈ reads, op.isWrite = false) →
    c.LeafsThrough u (c.after s reads) listed pages

variable {inv : σ → Prop} {listed : List Product}

/-- Page requests answer windows of the products, and go on doing so. -/
def Pages (c : Catalog σ) (u : ProductType) (inv : σ → Prop) (listed : List Product) : Prop :=
  ∀ number s, inv s →
    ((c.pageOfType u number).run s).1 = numbered c.pageSize listed number ∧
      inv ((c.pageOfType u number).run s).2

section Turning

variable (hpages : c.Pages u inv listed) (hsize : 0 < c.pageSize) (hfew : listed.length < 2 ^ 63)
include hpages hsize hfew

theorem answers_pageOfType {i : Nat} (hi : i < sheetCount c.pageSize listed) {number : Int}
    (hnumber : number = i + 1) :
    Answers inv (c.pageOfType u number) (sheet c.pageSize listed i) := by
  intro s hs
  rcases hpages number s hs with ⟨hanswer, hafter⟩
  refine ⟨_, Prod.ext ?_ rfl, hafter⟩
  rw [hanswer, hnumber]
  exact numbered_eq hsize hfew hi

theorem answers_firstPage : Answers inv (c.firstPage u) (sheet c.pageSize listed 0) :=
  answers_pageOfType hpages hsize hfew sheetCount_pos rfl

/-- The next page is the next sheet, if there is one. -/
theorem answers_nextPage {i : Nat} (hi : i < sheetCount c.pageSize listed) :
    Answers inv (c.nextPage u (some (sheet c.pageSize listed i)))
      (sheetAfter c.pageSize listed (i + 1)) := by
  have hlast := isLast_sheet hsize hi
  unfold nextPage sheetAfter
  dsimp only
  by_cases hend : i + 1 = sheetCount c.pageSize listed
  · have hstays : min (i + 1) (sheetCount c.pageSize listed - 1) = i := by omega
    rw [if_pos (hlast.2 hend), hstays]
    exact Action.answers_pure _
  · have hgoes : min (i + 1) (sheetCount c.pageSize listed - 1) = i + 1 := by omega
    have hlt : i + 1 < sheetCount c.pageSize listed := by omega
    have hnumber : (sheet c.pageSize listed i).number = i + 1 := by
      rw [sheet, if_neg (ne_nil_of_lt hsize hlt)]
    have hword : i + 1 < 2 ^ 63 := hlt.trans (sheetCount_lt hsize hfew)
    rw [if_neg (mt hlast.1 hend), hgoes, hnumber, signedWord_eq hword]
    exact answers_pageOfType hpages hsize hfew hlt rfl

/-- The previous page is the sheet before, if there is one. -/
theorem answers_previousPage {i : Nat} (hi : i < sheetCount c.pageSize listed) :
    Answers inv (c.previousPage u (some (sheet c.pageSize listed i)))
      (sheet c.pageSize listed (i - 1)) := by
  have hfirst : (sheet c.pageSize listed i).isFirst = true ↔ i = 0 ∨ listed = [] := isFirst_sheet
  unfold previousPage
  dsimp only
  by_cases hstart : i = 0
  · rw [if_pos (hfirst.2 (.inl hstart)), hstart]
    exact Action.answers_pure _
  · have hne : listed ≠ [] := ne_nil_of_lt hsize (i := 0) (by omega)
    have hnumber : (sheet c.pageSize listed i).number = i + 1 := by rw [sheet, if_neg hne]
    have hword : i + 1 < 2 ^ 63 := Nat.lt_of_le_of_lt hi (sheetCount_lt hsize hfew)
    rw [if_neg (mt hfirst.1 (by simp [hstart, hne])), hnumber, signedWord_eq hword]
    exact answers_pageOfType hpages hsize hfew (by omega) (by omega)

theorem answers_lastPage :
    Answers inv (c.lastPage u) (sheet c.pageSize listed (sheetCount c.pageSize listed - 1)) := by
  have hpos : 0 < sheetCount c.pageSize listed := sheetCount_pos
  have hlast := isLast_sheet hsize hpos
  refine (answers_firstPage hpages hsize hfew).bind ?_
  by_cases hone : 0 + 1 = sheetCount c.pageSize listed
  · rw [if_pos (hlast.2 hone), ← hone]
    exact Action.answers_pure _
  · have hne : listed ≠ [] := ne_nil_of_lt hsize (i := 0) (by omega)
    have htotal : (sheet c.pageSize listed 0).totalPages = sheetCount c.pageSize listed := by
      rw [sheetCount_of_ne_nil hsize hne, sheet, if_neg hne]
    rw [if_neg (mt hlast.1 hone), htotal, signedWord_eq (sheetCount_lt hsize hfew)]
    exact answers_pageOfType hpages hsize hfew (by omega) (by omega)

/-- A walk makes one step after the other. -/
theorem answers_walk (n steps : Nat) :
    Answers inv (c.walk u n (some (sheetAfter c.pageSize listed steps)))
      ((List.range n).map fun k => sheetAfter c.pageSize listed (steps + 1 + k)) := by
  induction n generalizing steps with
  | zero => exact Action.answers_pure []
  | succ n ih =>
    have hpos : 0 < sheetCount c.pageSize listed := sheetCount_pos
    have hstep : Answers inv (c.nextPage u (some (sheetAfter c.pageSize listed steps)))
        (sheetAfter c.pageSize listed (steps + 1)) := by
      have hnext := answers_nextPage hpages hsize hfew
        (i := min steps (sheetCount c.pageSize listed - 1)) (by omega)
      -- a step from the last sheet leads nowhere else
      have hsame : sheetAfter c.pageSize listed (min steps (sheetCount c.pageSize listed - 1) + 1) =
          sheetAfter c.pageSize listed (steps + 1) :=
        congrArg (sheet c.pageSize listed) (by omega)
      rwa [hsame] at hnext
    have hshift : (fun k => sheetAfter c.pageSize listed (steps + 1 + k)) ∘ Nat.succ =
        fun k => sheetAfter c.pageSize listed (steps + 1 + 1 + k) := by
      funext k
      exact congrArg (sheetAfter c.pageSize listed) (by omega)
    rw [List.range_succ_eq_map, List.map_cons, List.map_map, hshift]
    exact hstep.bind ((ih (steps + 1)).bind (Action.answers_pure _))

/-- A walk from the start goes to the first sheet, and on from there. -/
theorem answers_walk_none (more : Nat) :
    Answers inv (c.walk u (sheetCount c.pageSize listed + more) none)
      (sheets c.pageSize listed ++ List.replicate more
        (sheet c.pageSize listed (sheetCount c.pageSize listed - 1))) := by
  have hfirst : sheetAfter c.pageSize listed 0 = sheet c.pageSize listed 0 :=
    congrArg (sheet c.pageSize listed) (Nat.zero_min _)
  have hshift : sheetAfter c.pageSize listed ∘ Nat.succ =
      fun k => sheetAfter c.pageSize listed (0 + 1 + k) := by
    funext k
    exact congrArg (sheetAfter c.pageSize listed) (by omega)
  have hpos : 0 < sheetCount c.pageSize listed := sheetCount_pos
  have hsteps : sheetCount c.pageSize listed + more =
      sheetCount c.pageSize listed + more - 1 + 1 := by omega
  have hwalk := answers_walk hpages hsize hfew (sheetCount c.pageSize listed + more - 1) 0
  rw [← map_sheetAfter_range, hsteps, List.range_succ_eq_map, List.map_cons, List.map_map, hshift]
  rw [hfirst] at hwalk ⊢
  exact (answers_firstPage hpages hsize hfew).bind (hwalk.bind (Action.answers_pure _))

/-- The sheets lead through the products. -/
theorem leafsThrough
    (hlisting : ∀ s, inv s → ((c.productsOfType u).run s).1 = .ok listed)
    (honce : (listed.map Product.id).Nodup) {s : σ} (hs : inv s) :
    c.LeafsThrough u s listed (sheets c.pageSize listed) := by
  have hpos : 0 < sheetCount c.pageSize listed := sheetCount_pos
  have hend : (sheets c.pageSize listed).getLast? =
      some (sheet c.pageSize listed (sheetCount c.pageSize listed - 1)) := by
    rw [List.getLast?_eq_getElem?, length_sheets, getElem?_sheets (by omega)]
  have hstart : (sheets c.pageSize listed).head? = some (sheet c.pageSize listed 0) := by
    rw [List.head?_eq_getElem?, getElem?_sheets hpos]
  refine ⟨?_, ?_, hlisting s hs, flatMap_sheets hsize, honce, ?_, ?_, ?_, ?_, ?_⟩
  · rw [length_sheets, sheetCount, totalFor_eq hsize]
  · rintro rfl
    rw [sheets, sheetCount_nil hsize]
    rfl
  · intro i page hpage
    rcases lt_sheetCount_of_getElem? hpage with ⟨hi, rfl⟩
    rw [length_sheets]
    exact isLast_sheet hsize hi
  · intro last hlast more
    rw [hend] at hlast
    cases hlast
    rw [length_sheets]
    exact (answers_walk_none hpages hsize hfew more).run hs
  · intro last hlast
    rw [hend] at hlast
    cases hlast
    have hstays : sheetAfter c.pageSize listed (sheetCount c.pageSize listed - 1 + 1) =
        sheet c.pageSize listed (sheetCount c.pageSize listed - 1) :=
      congrArg (sheet c.pageSize listed) (by omega)
    have hnext := answers_nextPage hpages hsize hfew
      (i := sheetCount c.pageSize listed - 1) (by omega)
    rw [hstays] at hnext
    exact ⟨(answers_lastPage hpages hsize hfew).run hs, hnext.run hs⟩
  · intro first hfirst
    rw [hstart] at hfirst
    cases hfirst
    exact ⟨(answers_firstPage hpages hsize hfew).run hs,
      (answers_previousPage hpages hsize hfew hpos).run hs⟩
  · intro i page following hpage hfollowing
    rcases lt_sheetCount_of_getElem? hpage with ⟨hi, rfl⟩
    rcases lt_sheetCount_of_getElem? hfollowing with ⟨hlt, rfl⟩
    have hgoes : sheetAfter c.pageSize listed (i + 1) = sheet c.pageSize listed (i + 1) :=
      congrArg (sheet c.pageSize listed) (by omega)
    have hnext := answers_nextPage hpages hsize hfew hi
    rw [hgoes] at hnext
    exact ⟨hnext.run hs, (answers_previousPage hpages hsize hfew hlt).run hs⟩

end Turning

/-- Without a first page there is no walk. -/
theorem not_walksPages {s : σ} {e : CatalogError} (h : ((c.firstPage u).run s).1 = .error e) :
    ¬ c.WalksPages u s := by
  rintro ⟨listed, pages, hwalks⟩
  have hleafs : c.LeafsThrough u s listed pages := hwalks [] nofun
  have hcount := hleafs.count
  cases pages with
  | nil =>
    rw [List.length_nil] at hcount
    omega
  | cons first rest =>
    have hfirst := (hleafs.firstPage first rfl).1
    rw [h] at hfirst
    cases hfirst

/-- What reads keep, histories of reads keep. -/
theorem after_reads (hreads : ∀ op, op.isWrite = false → Action.Keeps inv (c.perform op))
    {reads : List Operation} (h : ∀ op ∈ reads, op.isWrite = false) {s : σ} (hs : inv s) :
    inv (c.after s reads) := by
  induction reads generalizing s with
  | nil => exact hs
  | cons op rest ih =>
    have hone := hreads op (h op List.mem_cons_self) s hs
    exact ih (fun later hlater => h later (List.mem_cons_of_mem op hlater)) hone

end Catalog

/-! ## Leafing through ledgers -/

namespace Ledger

variable {κ σ : Type} {l : Ledger κ} {st : LedgerState κ} {c : Catalog σ} {u t : ProductType}

/-- What is answered are some of the entries in another order. -/
theorem exists_perm_answer (l : Ledger κ) (st : LedgerState κ) (test : Entry κ → Bool) :
    ∃ part, (l.answer st test).Perm part ∧ part.Sublist st.entries :=
  ⟨_, List.mergeSort_perm _ _, List.filter_sublist⟩

theorem nodup_ids_of_keys {st : LedgerState String}
    (hids : ∀ e ∈ st.entries, e.product.id = some e.key) (hkeys : (st.entries.map Entry.key).Nodup) :
    (st.entries.map fun e => e.product.id).Nodup := by
  have hsame : st.entries.map (fun e => e.product.id) = (st.entries.map Entry.key).map some := by
    rw [List.map_map]
    exact List.map_congr_left hids
  rw [hsame]
  exact hkeys.map (Option.some_injective String)

/-- A catalog that answers about a type what a ledger answers leads through its products. -/
theorem walksPages [DecidableEq κ] (inv : σ → Prop) (hschema : l.schema.Regular)
    (heverything : ∀ m, l.satisfies .everything m = true) (ht : l.schema.resolveType u = .ok t)
    (hfew : st.entries.length < 2 ^ 63)
    (honce : (st.entries.map fun e => e.product.id).Nodup)
    (hsize : 0 < c.pageSize) (hsame : c.pageSize = l.pageSize)
    (hpage : ∀ number s, inv s → ((c.page .everything u number).run s).1 =
      ((l.catalog.page .everything u number).run st).1)
    (hlisting : ∀ s, inv s → ((c.productsOfType u).run s).1 =
      ((l.catalog.productsOfType u).run st).1)
    (hreads : ∀ op, op.isWrite = false → Action.Keeps inv (c.perform op)) {s : σ} (hs : inv s) :
    c.WalksPages u s := by
  have hanswer : l.answerOfType st u =
      .ok (l.answer st fun e => e.product.productType.id == t.id) := by
    rw [answerOfType, ht]
    rfl
  generalize hfound : (l.answer st fun e => e.product.productType.id == t.id) = found at hanswer
  have hlisted : ((l.catalog.productsOfType u).run st).1 = .ok (found.map Entry.product) := by
    show (do return (← l.answerOfType st u).map Entry.product) = _
    rw [hanswer]
    rfl
  have hpages : c.Pages u inv (found.map Entry.product) := by
    intro number s hs
    have hkept := hreads (.page .everything u number) rfl s hs
    rw [Catalog.perform, Action.run_map] at hkept
    refine ⟨(hpage number s hs).trans ?_, hkept⟩
    show (do l.pageOf number ((← l.matching .everything u st).map Entry.product)) = _
    rw [matching_everything hschema heverything, hanswer, hsame]
    rfl
  rcases l.exists_perm_answer st fun e => e.product.productType.id == t.id with
    ⟨part, hperm, hsublist⟩
  rw [hfound] at hperm
  have hcount : (found.map Entry.product).length < 2 ^ 63 := by
    rw [List.length_map, hperm.length_eq]
    exact Nat.lt_of_le_of_lt hsublist.length_le hfew
  have hids : ((found.map Entry.product).map Product.id).Nodup := by
    rw [List.map_map, (hperm.map _).nodup_iff]
    exact honce.sublist (hsublist.map _)
  refine ⟨_, _, fun reads hread => Catalog.leafsThrough hpages hsize hcount
    (fun s hs => (hlisting s hs).trans hlisted) hids (Catalog.after_reads hreads hread hs)⟩

end Ledger

namespace Relational.Store

variable {s : Store} {db : Database} {st : LedgerState Int} {u t : ProductType}

/-- The ids of products are spelled differently. -/
theorem Stands.nodup_ids (h : s.Stands db st) : (st.entries.map fun e => e.product.id).Nodup := by
  rcases h with ⟨contents, h, -, rfl⟩
  have hids : (s.abstracted db contents).entries.map (fun e => e.product.id) =
      db.products.map fun row => some (toString row.id) := List.map_map
  rw [hids]
  refine (List.nodup_map_iff_inj_on h.ids.of_map).2 fun row hrow row' hrow' heq => ?_
  have hid := h.toString_inj hrow hrow' (Option.some.inj heq)
  exact List.inj_on_of_nodup_map h.ids hrow hrow' hid

theorem Stands.walksPages (hs : s.Regular) (htabled : s.TabledFor u) (hsize : 0 < s.pageSize)
    (ht : s.schema.resolveType u = .ok t) (h : s.Stands db st) : s.catalog.WalksPages u db := by
  have hfew : st.entries.length < 2 ^ 63 := by
    have hle := h.length_le
    unfold Database.greatestId at hle
    omega
  exact Ledger.walksPages (l := s.ledger) (fun db => s.Stands db st) hs.schema (fun _ => rfl)
    ht hfew h.nodup_ids hsize rfl
    (fun number db h => (matches_page hs htabled .everything number db st h).1)
    (fun db h => (matches_productsOfType hs u db st h).1)
    (fun op hread => keeps_stands_read hs hread) h

end Relational.Store

namespace Inverted.Store

variable {s : Store} {a : Archive} {st : LedgerState String} {u t : ProductType}

theorem Stands.walksPages (hschema : s.schema.Regular) (hsize : 0 < s.pageSize)
    (ht : s.schema.resolveType u = .ok t) (h : s.Stands [] a st)
    (hfew : st.entries.length < 2 ^ 63) : s.catalog.WalksPages u a :=
  Ledger.walksPages (l := s.ledger) (fun a => s.Stands [] a st) hschema (fun _ => rfl) ht hfew
    (Ledger.nodup_ids_of_keys (fun e he => (h.whole e he).id) h.keys) hsize rfl
    (fun number a h => (matches_page .everything u number a st h).1)
    (fun a h => (matches_productsOfType u a st h).1)
    (fun _ hread => (silent_perform hread).keeps) h

end Inverted.Store

namespace Remote.Store

variable {s : Store} {service : Service} {st : LedgerState String} {u t : ProductType}

theorem Stands.walksPages (hschema : s.schema.Regular) (hsize : 0 < s.pageSize)
    (ht : s.schema.resolveType u = .ok t) (h : s.Stands [] service st)
    (hfew : st.entries.length < 2 ^ 63) : s.catalog.WalksPages u service := by
  have hcount : st.entries.length ≤ greatestCount := by
    unfold greatestCount
    omega
  exact Ledger.walksPages (l := s.ledger) (fun service => s.Stands [] service st) hschema
    (fun _ => rfl) ht hfew
    (Ledger.nodup_ids_of_keys (fun e he => (h.whole e he).id) h.keys) hsize rfl
    (fun number service h => (matches_page hschema (asksApart_everything _) u number service st
      ⟨h, hcount⟩).1)
    (fun service h => (matches_productsOfType hschema u service st h).1)
    (fun _ hread => (silent_perform hread).keeps) h

end Remote.Store

/-- After every history a catalog leads through all products of every type, page by page. Where
tables are used, those of the type can be named and the names of elements can stand for columns if
they have to. The other backends need no such thing. -/
theorem pages_walk_every_product :
    (∀ (s : Relational.Store) (history : List Operation) (u t : ProductType), s.Regular →
      (∀ t ∈ s.schema.types.types, t.id ≠ "") → s.TabledFor u → 0 < s.pageSize →
      s.schema.resolveType u = .ok t → s.catalog.WalksPages u (s.catalog.after .empty history)) ∧
    (∀ (s : Inverted.Store) (history : List Operation) (u t : ProductType), s.schema.Regular →
      (∀ t ∈ s.schema.types.types, t.id ≠ "") → (freshIds history).Nodup →
      (∀ op ∈ history, Inverted.Store.ClockInRange op) → history.length < 2 ^ 63 →
      0 < s.pageSize → s.schema.resolveType u = .ok t →
      s.catalog.WalksPages u (s.catalog.after .empty history)) ∧
    (∀ (s : Remote.Store) (history : List Operation) (u t : ProductType), s.schema.Regular →
      (∀ t ∈ s.schema.types.types, t.id ≠ "") → (freshIds history).Nodup →
      (∀ op ∈ history, Remote.Store.FitsWords op) → history.length < 2 ^ 63 →
      0 < s.pageSize → s.schema.resolveType u = .ok t →
      s.catalog.WalksPages u (s.catalog.after .empty history)) := by
  refine ⟨?_, ?_, ?_⟩
  · intro s history u t hs hids htabled hsize ht
    rcases Relational.Store.isStanding_after hs hids history with ⟨st, h⟩
    exact h.walksPages hs htabled hsize ht
  · intro s history u t hschema hids hfresh hclock hfew hsize ht
    have h := Inverted.Store.stands_after hschema hids hfresh hclock
    have hlength := s.ledger.length_after history .empty
    have hnone : (LedgerState.empty : LedgerState String).entries.length = 0 := rfl
    exact h.walksPages hschema hsize ht (by omega)
  · intro s history u t hschema hids hfresh hfits hfew hsize ht
    rcases Remote.Store.exists_stands_after hschema hids hfresh hfits with ⟨st, h, hlength⟩
    exact h.walksPages hschema hsize ht (Nat.lt_of_le_of_lt hlength hfew)

/-- Three granules fill two pages in every backend. -/
theorem granules_walked :
    Granules.relational.catalog.WalksPages (.named "GRANULE")
      (Granules.relational.catalog.after .empty Granules.history) ∧
    Granules.inverted.catalog.WalksPages (.named "GRANULE")
      (Granules.inverted.catalog.after .empty Granules.history) ∧
    Granules.remote.catalog.WalksPages (.named "GRANULE")
      (Granules.remote.catalog.after .empty Granules.history) ∧
    max 1 ((3 + Granules.relational.pageSize - 1) / Granules.relational.pageSize) = 2 := by
  have hres : Granules.document.toSchema.resolveType (.named "GRANULE") = .ok Granules.granule := by
    decide +kernel
  rcases pages_walk_every_product with ⟨hrelational, hinverted, hremote⟩
  refine ⟨?_, ?_, ?_, by decide⟩
  · exact hrelational _ _ _ _ Granules.regular_relational Granules.ids_schema
      (Granules.tabled_relational.tabledFor Granules.regular_relational _) (by decide) hres
  · exact hinverted _ _ _ _ Granules.regular_schema Granules.ids_schema Granules.fresh_history
      Granules.clock_history (by decide) (by decide) hres
  · exact hremote _ _ _ _ Granules.regular_schema Granules.ids_schema Granules.fresh_history
      Granules.fits_history (by decide) (by decide) hres

/-- The type of logs, whose tables would have reserved names, has no pages, not even a blank one. In
the wide layout, neither has the type with an element that is called like the product column in
capitals. -/
theorem pages_fail_for_unstorable_names :
    let logs : Relational.Store := { Relational.Store.twoTypesStore with layout := .narrow }
    let columns : Relational.Store := ⟨.wide [], [], Relational.Store.capitals.toSchema, 20⟩
    logs.schema.Regular ∧ (∀ t ∈ logs.schema.types.types, t.id ≠ "") ∧
    ((logs.catalog.productsOfType (.named "sqlite_log")).run .empty).1 = .ok [] ∧
    ((logs.catalog.nextPage (.named "sqlite_log") none).run .empty).1 =
      .error (.store (.reservedName "sqlite_log_reference")) ∧
    ¬ logs.catalog.WalksPages (.named "sqlite_log") .empty ∧
    columns.schema.Regular ∧ (∀ t ∈ columns.schema.types.types, t.id ≠ "") ∧
    ((columns.catalog.productsOfType (.named "GRANULE")).run .empty).1 = .ok [] ∧
    ((columns.catalog.nextPage (.named "GRANULE") none).run .empty).1 =
      .error (.store (.duplicateColumn "PRODUCT_ID")) ∧
    ¬ columns.catalog.WalksPages (.named "GRANULE") .empty := by
  dsimp only
  have hlogs : ((({ Relational.Store.twoTypesStore with layout := .narrow }
      : Relational.Store).catalog.firstPage (.named "sqlite_log")).run .empty).1 =
      .error (.store (.reservedName "sqlite_log_reference")) := by decide +kernel
  have hcolumns : (((⟨.wide [], [], Relational.Store.capitals.toSchema, 20⟩
      : Relational.Store).catalog.firstPage (.named "GRANULE")).run .empty).1 =
      .error (.store (.duplicateColumn "PRODUCT_ID")) := by decide +kernel
  exact ⟨Schema.regular_toSchema _, by decide +kernel, by decide +kernel, hlogs,
    Catalog.not_walksPages hlogs, Schema.regular_toSchema _, by decide +kernel, by decide +kernel,
    hcolumns, Catalog.not_walksPages hcolumns⟩

end ArchiveCatalog
