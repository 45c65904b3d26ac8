import Mathlib.Logic.ExistsUnique
import ArchiveCatalog.Page

namespace ArchiveCatalog

/-! # Windows on a result

The windows of consecutive pages tile a result: each starts where the one before it stops, none is
empty, and the last one stops at the end. Products and sums of counts stop at the greatest word.
They differ from the exact ones beyond the end of every result only, where a page past the end
stands for the first one and a window is cut off anyway, so no answer depends on it.
-/

/-- Counts below half of all words keep their value as signed words. -/
theorem signedWord_eq {n : Nat} (h : n < 1 <<< 63) : signedWord n = n := by
  unfold signedWord
  apply Int.bmod_eq_of_le <;> omega

section Totals

variable {size i : Nat}

/-- There are so many full pages, and one more for a rest. -/
theorem totalFor_eq (hsize : 0 < size) (hits : Nat) :
    Page.totalFor hits size = (hits + size - 1) / size :=
  if_neg (Nat.pos_iff_ne_zero.1 hsize)

theorem lt_totalFor_iff (hsize : 0 < size) {hits : Nat} :
    i < Page.totalFor hits size ↔ i * size < hits := by
  rw [totalFor_eq hsize, Nat.lt_iff_add_one_le, Nat.le_div_iff_mul_le hsize, Nat.succ_mul]
  omega

theorem totalFor_pos_iff (hsize : 0 < size) {hits : Nat} :
    0 < Page.totalFor hits size ↔ 0 < hits := by
  rw [lt_totalFor_iff hsize, Nat.zero_mul]

theorem le_totalFor_mul (hsize : 0 < size) (hits : Nat) :
    hits ≤ Page.totalFor hits size * size := by
  -- otherwise there would be a page more
  refine Nat.le_of_not_lt fun hlt => ?_
  exact Nat.lt_irrefl _ ((lt_totalFor_iff hsize).2 hlt)

end Totals

namespace PageWindow

/-! ## What a window cuts out -/

theorem cut_map {α β : Type} (w : PageWindow) (size : Nat) (f : α → β) (result : List α) :
    w.cut size (result.map f) = (w.cut size result).map f := by
  simp only [cut, List.length_map, List.map_drop, List.map_take]

theorem mem_of_mem_cut {α : Type} {w : PageWindow} {size : Nat} {result : List α} {x : α}
    (h : x ∈ w.cut size result) : x ∈ result :=
  List.mem_of_mem_take (List.mem_of_mem_drop h)

theorem cut_all {α : Type} (size : Nat) (result : List α) :
    PageWindow.all.cut size result = result := by
  simp [cut, bounds]

theorem hits_page {w : PageWindow} {size hits : Nat} (products : List Product)
    (h : w = .blank → hits = 0) : (w.page size hits products).hits = hits := by
  cases w with
  | blank => exact (h rfl).symm
  | all => rfl
  | slice number offset => rfl

theorem products_page {w : PageWindow} {size hits : Nat} {products : List Product}
    (h : w = .blank → products = []) : (w.page size hits products).products = products := by
  cases w with
  | blank => exact (h rfl).symm
  | all => rfl
  | slice number offset => rfl

/-- A sum that stops at the greatest count still reaches the end of a result. -/
theorem min_boundedAdd {hits : Nat} (hcount : hits ≤ greatestCount) (a b : Nat) :
    min (boundedAdd a b) hits = min (a + b) hits := by
  unfold boundedAdd
  omega

/-- So does a product. -/
theorem le_boundedMul_iff {hits : Nat} (hcount : hits ≤ greatestCount) {a b : Nat} :
    hits ≤ boundedMul a b ↔ hits ≤ a * b := by
  unfold boundedMul
  omega

/-- Before the end of a result products are exact. -/
theorem boundedMul_of_lt {hits : Nat} (hcount : hits ≤ greatestCount) {a b : Nat}
    (h : a * b < hits) : boundedMul a b = a * b := by
  unfold boundedMul
  omega

theorem cut_slice {α : Type} {result : List α} (hcount : result.length ≤ greatestCount)
    (number offset size : Nat) :
    (slice number offset).cut size result = (result.drop offset).take size := by
  have htake : result.take (min (offset + size) result.length) = result.take (offset + size) := by
    rw [← List.take_take, List.take_length]
  simp only [cut, bounds]
  rw [min_boundedAdd hcount, htake, List.drop_take, Nat.add_sub_cancel_left]

/-- Consecutive pieces of one size make up the beginning of a list. -/
theorem flatMap_range_pieces {α : Type} (result : List α) (size n : Nat) :
    (List.range n).flatMap (fun i => (result.drop (i * size)).take size) =
      result.take (n * size) := by
  induction n with
  | zero => simp
  | succ n ih =>
    rw [List.range_succ, List.flatMap_append, ih, Nat.succ_mul, List.take_add]
    simp

/-! ## Which window a page number asks for -/

section Requests

variable {number : Int} {size hits k : Nat}

/-- Page numbers below 1 are refused, but for the one that asks for everything. -/
theorem resolve_of_lt (hsize : 0 < size) (hlow : number < 1) (hnumber : number ≠ allResults) :
    resolve number size hits = .error (.invalidPage number) := by
  unfold resolve
  rw [if_neg (Nat.pos_iff_ne_zero.1 hsize), if_pos ⟨hnumber, hlow⟩]

/-- All others are answered, without hits by the blank window and otherwise by another one. -/
theorem exists_resolve (hsize : 0 < size) (hnumber : number = allResults ∨ 1 ≤ number)
    (hits : Nat) :
    ∃ w, resolve number size hits = .ok w ∧ (hits = 0 → w = .blank) ∧
      (hits ≠ 0 → w ≠ .blank ∧ (number = allResults → w = .all)) := by
  have hvalid : ¬ (number ≠ allResults ∧ number < 1) := by
    rintro ⟨hne, hlt⟩
    rcases hnumber with heq | hle
    · exact hne heq
    · omega
  unfold resolve
  rw [if_neg (Nat.pos_iff_ne_zero.1 hsize), if_neg hvalid]
  by_cases hits0 : hits = 0
  · exact ⟨.blank, if_pos hits0, fun _ => rfl, fun h => absurd hits0 h⟩
  · rw [if_neg hits0]
    by_cases hall : number = allResults
    · exact ⟨.all, if_pos hall, fun h => absurd h hits0, fun _ => ⟨nofun, fun _ => rfl⟩⟩
    · rw [if_neg hall]
      dsimp only
      split
      · exact ⟨_, rfl, fun h => absurd h hits0, fun _ => ⟨nofun, fun h => absurd h hall⟩⟩
      · exact ⟨_, rfl, fun h => absurd h hits0, fun _ => ⟨nofun, fun h => absurd h hall⟩⟩

/-- So a page number is refused for one reason only. -/
theorem resolve_eq_error_iff (hsize : 0 < size) {fault : QueryFault} :
    resolve number size hits = .error fault ↔
      fault = .invalidPage number ∧ number < 1 ∧ number ≠ allResults := by
  constructor
  · intro hfault
    by_cases hvalid : number = allResults ∨ 1 ≤ number
    · rcases exists_resolve hsize hvalid hits with ⟨w, hw, -⟩
      rw [hw] at hfault
      cases hfault
    · have hlow : number < 1 ∧ number ≠ allResults := by
        constructor
        · omega
        · exact fun hall => hvalid (.inl hall)
      rw [resolve_of_lt hsize hlow.1 hlow.2] at hfault
      cases hfault
      exact ⟨rfl, hlow⟩
  · rintro ⟨rfl, hlow, hnumber⟩
    exact resolve_of_lt hsize hlow hnumber

/-- A request for one page of a result that is not empty comes down to where the page would
start. -/
theorem resolve_eq (hsize : 0 < size) (hhits : 0 < hits) (hcount : hits ≤ greatestCount)
    (hfirst : 1 ≤ k) :
    resolve k size hits =
      if hits ≤ (k - 1) * size then .ok (.slice 1 0) else .ok (.slice k ((k - 1) * size)) := by
  have hvalid : ¬ ((k : Int) ≠ allResults ∧ (k : Int) < 1) := by omega
  have hone : (k : Int) ≠ allResults := by
    unfold allResults
    omega
  have hnumber : (k : Int).toNat = k := Int.toNat_natCast k
  unfold resolve
  rw [if_neg (Nat.pos_iff_ne_zero.1 hsize), if_neg hvalid, if_neg (Nat.pos_iff_ne_zero.1 hhits),
    if_neg hone, hnumber]
  dsimp only
  by_cases hpast : hits ≤ (k - 1) * size
  · rw [if_pos ((le_boundedMul_iff hcount).2 hpast), if_pos hpast]
  · have hexact := boundedMul_of_lt hcount (Nat.not_le.1 hpast)
    rw [hexact, if_neg hpast]

/-- The pages from 1 to the last are answered as they are asked for. -/
theorem resolve_page (hsize : 0 < size) (hcount : hits ≤ greatestCount) (hfirst : 1 ≤ k)
    (hlast : k ≤ Page.totalFor hits size) :
    resolve k size hits = .ok (.slice k ((k - 1) * size)) := by
  have hstart : (k - 1) * size < hits := (lt_totalFor_iff hsize).1 (by omega)
  rw [resolve_eq hsize (Nat.zero_lt_of_lt hstart) hcount hfirst, if_neg (Nat.not_le.2 hstart)]

/-- A page past the last stands for the first one. -/
theorem resolve_past (hsize : 0 < size) (hhits : 0 < hits) (hcount : hits ≤ greatestCount)
    (hpast : (Page.totalFor hits size : Int) < number) :
    resolve number size hits = .ok (.slice 1 0) := by
  obtain ⟨k, rfl⟩ : ∃ k : Nat, number = k := ⟨number.toNat, by omega⟩
  have hstart : hits ≤ (k - 1) * size := by
    rw [← Nat.not_lt, ← lt_totalFor_iff hsize]
    omega
  rw [resolve_eq hsize hhits hcount (by omega), if_pos hstart]

theorem bounds_slice (hcount : hits ≤ greatestCount) (hfirst : 1 ≤ k) :
    (slice k ((k - 1) * size)).bounds size hits = ((k - 1) * size, min (k * size) hits) := by
  have hstop : (k - 1) * size + size = k * size := by
    rw [← Nat.succ_mul, Nat.succ_eq_add_one, Nat.sub_add_cancel hfirst]
  rw [bounds, min_boundedAdd hcount, hstop]

/-- A window that is answered lies within the result. -/
theorem bounds_of_resolve (hcount : hits ≤ greatestCount) {w : PageWindow}
    (h : resolve number size hits = .ok w) :
    (w.bounds size hits).1 ≤ (w.bounds size hits).2 ∧ (w.bounds size hits).2 ≤ hits := by
  cases w with
  | blank => exact ⟨Nat.le_refl _, Nat.zero_le _⟩
  | all => exact ⟨Nat.zero_le _, Nat.le_refl _⟩
  | slice number offset =>
    -- a slice never starts past the end
    have hoffset : offset ≤ hits := by
      unfold resolve at h
      dsimp only at h
      split at h
      · cases h
      · split at h
        · cases h
        · split at h
          · cases h
          · split at h
            · cases h
            · split at h
              · cases h
                exact Nat.zero_le _
              · cases h
                omega
    rw [bounds, min_boundedAdd hcount]
    constructor
    · exact Nat.le_min.2 ⟨Nat.le_add_right _ _, hoffset⟩
    · exact Nat.min_le_right _ _

end Requests

/-! ## Tilings -/

/-- Where the page of a number starts and stops in a result of so many hits, unless the number is
refused. -/
def span? (size hits : Nat) (number : Int) : Option (Nat × Nat) :=
  (resolve number size hits).toOption.map fun w => w.bounds size hits

/-- What all page numbers are answered, and how the pages share a result among them. -/
structure Tiles (size hits : Nat) : Prop where
  /-- Page numbers below 1 are refused, but for the one that asks for everything. -/
  refused : ∀ number fault, resolve number size hits = .error fault ↔
    fault = .invalidPage number ∧ number < 1 ∧ number ≠ allResults
  /-- Every number that is not refused asks for the blank page if there are no hits. -/
  blank : hits = 0 → ∀ number, 1 ≤ number ∨ number = allResults →
    resolve number size hits = .ok .blank
  /-- A page has its own number and the rows of its place, at least one. -/
  page : ∀ k : Nat, 1 ≤ k → k ≤ Page.totalFor hits size →
    resolve k size hits = .ok (.slice k ((k - 1) * size)) ∧
      span? size hits k = some ((k - 1) * size, min (k * size) hits) ∧
      (k - 1) * size < min (k * size) hits
  /-- If there are hits, every number past the last page asks for the first one. -/
  past : 0 < hits → ∀ number : Int, Page.totalFor hits size < number →
    resolve number size hits = .ok (.slice 1 0)
  /-- The first page starts at the beginning and the last one stops at the end. -/
  ends : 0 < hits → (∃ stop, span? size hits 1 = some (0, stop)) ∧
    ∃ start, span? size hits (Page.totalFor hits size) = some (start, hits)
  /-- A page stops where the next one starts. -/
  consecutive : ∀ k : Nat, 1 ≤ k → k < Page.totalFor hits size → ∃ start middle stop,
    span? size hits k = some (start, middle) ∧
      span? size hits (k + 1 : Nat) = some (middle, stop)
  /-- Every row is on one page and on no other. -/
  covers : ∀ i < hits, ∃! k : Nat, (1 ≤ k ∧ k ≤ Page.totalFor hits size) ∧
    ∃ start stop, span? size hits k = some (start, stop) ∧ start ≤ i ∧ i < stop
  /-- What the pages cut out of a result makes up the result. -/
  joined : ∀ {α : Type} (result : List α), result.length = hits →
    (List.range (Page.totalFor hits size)).flatMap
      (fun i => (slice (i + 1) (i * size)).cut size result) = result
  /-- Whatever is asked for starts before it stops and stops within the result. -/
  within : ∀ number start stop, span? size hits number = some (start, stop) →
    start ≤ stop ∧ stop ≤ hits

section Tilings

variable {size hits k : Nat}

theorem span?_page (hsize : 0 < size) (hcount : hits ≤ greatestCount) (hfirst : 1 ≤ k)
    (hlast : k ≤ Page.totalFor hits size) :
    span? size hits k = some ((k - 1) * size, min (k * size) hits) := by
  rw [span?, resolve_page hsize hcount hfirst hlast]
  exact congrArg some (bounds_slice hcount hfirst)

/-- A page before the last is full. -/
theorem span?_inner (hsize : 0 < size) (hcount : hits ≤ greatestCount) (hfirst : 1 ≤ k)
    (hinner : k < Page.totalFor hits size) :
    span? size hits k = some ((k - 1) * size, k * size) := by
  have hfull : k * size < hits := (lt_totalFor_iff hsize).1 hinner
  rw [span?_page hsize hcount hfirst (Nat.le_of_lt hinner), Nat.min_eq_left (Nat.le_of_lt hfull)]

/-- A row is on the page that is reached after all full pages before it. -/
theorem mem_page_iff (hsize : 0 < size) {i : Nat} (hi : i < hits) (hfirst : 1 ≤ k) :
    (k - 1) * size ≤ i ∧ i < min (k * size) hits ↔ k = i / size + 1 := by
  have hbelow : i / size * size ≤ i := Nat.div_mul_le_self i size
  have habove : i < (i / size + 1) * size := by
    rw [Nat.mul_comm]
    exact Nat.lt_mul_div_succ i hsize
  constructor
  · rintro ⟨hstart, hstop⟩
    have hle : k - 1 ≤ i / size := (Nat.le_div_iff_mul_le hsize).2 hstart
    have hlt : i / size < k := (Nat.div_lt_iff_lt_mul hsize).2 (Nat.lt_min.1 hstop).1
    omega
  · rintro rfl
    exact ⟨hbelow, Nat.lt_min.2 ⟨habove, hi⟩⟩

theorem page_of_row_le (hsize : 0 < size) {i : Nat} (hi : i < hits) :
    i / size + 1 ≤ Page.totalFor hits size := by
  have hstart : i / size * size < hits := Nat.lt_of_le_of_lt (Nat.div_mul_le_self i size) hi
  exact (lt_totalFor_iff hsize).2 hstart

/-- A page from 1 to the last has a row. -/
theorem page_nonempty (hsize : 0 < size) (hfirst : 1 ≤ k) (hlast : k ≤ Page.totalFor hits size) :
    (k - 1) * size < min (k * size) hits := by
  have hstart : (k - 1) * size < hits := (lt_totalFor_iff hsize).1 (by omega)
  have hrow := (mem_page_iff hsize hstart hfirst).2
  rw [Nat.mul_div_cancel _ hsize] at hrow
  exact (hrow (by omega)).2

/-- A row is on the page of its place and on no other. -/
theorem existsUnique_page (hsize : 0 < size) (hcount : hits ≤ greatestCount) {i : Nat}
    (hi : i < hits) :
    ∃! k : Nat, (1 ≤ k ∧ k ≤ Page.totalFor hits size) ∧
      ∃ start stop, span? size hits k = some (start, stop) ∧ start ≤ i ∧ i < stop := by
  have hlast := page_of_row_le hsize hi
  refine ⟨i / size + 1, ⟨⟨Nat.le_add_left 1 _, hlast⟩, ?_⟩, ?_⟩
  · refine ⟨_, _, span?_page hsize hcount (Nat.le_add_left 1 _) hlast, ?_⟩
    exact (mem_page_iff hsize hi (Nat.le_add_left 1 _)).2 rfl
  · rintro k ⟨⟨hfirst, hk⟩, start, stop, hspan, hrow⟩
    rw [span?_page hsize hcount hfirst hk] at hspan
    cases hspan
    exact (mem_page_iff hsize hi hfirst).1 hrow

theorem span?_within (hcount : hits ≤ greatestCount) {number : Int} {start stop : Nat}
    (hspan : span? size hits number = some (start, stop)) : start ≤ stop ∧ stop ≤ hits := by
  rw [span?] at hspan
  cases hw : resolve number size hits with
  | error fault =>
    rw [hw] at hspan
    cases hspan
  | ok w =>
    rw [hw] at hspan
    have hbounds := bounds_of_resolve hcount hw
    have hends : w.bounds size hits = (start, stop) := Option.some.inj hspan
    rw [hends] at hbounds
    exact hbounds

/-- The first page starts at the beginning and the last one stops at the end. -/
theorem span?_ends (hsize : 0 < size) (hcount : hits ≤ greatestCount) (hhits : 0 < hits) :
    (∃ stop, span? size hits 1 = some (0, stop)) ∧
      ∃ start, span? size hits (Page.totalFor hits size) = some (start, hits) := by
  have hlast : 1 ≤ Page.totalFor hits size := (totalFor_pos_iff hsize).2 hhits
  constructor
  · have hspan := span?_page hsize hcount (Nat.le_refl 1) hlast
    rw [Nat.sub_self, Nat.zero_mul] at hspan
    exact ⟨_, hspan⟩
  · have hspan := span?_page hsize hcount hlast (Nat.le_refl _)
    rw [Nat.min_eq_right (le_totalFor_mul hsize hits)] at hspan
    exact ⟨_, hspan⟩

/-- The pages of a result tile it, whatever their size and however close the counts are to the
greatest. Page numbers may be any integers, so they may be signed words. -/
theorem pages_tile_result (hsize : 0 < size) (hcount : hits ≤ greatestCount) : Tiles size hits where
  refused number fault := resolve_eq_error_iff hsize
  blank := by
    intro hnone number hvalid
    rcases exists_resolve hsize hvalid.symm hits with ⟨w, hw, hblank, -⟩
    rw [hw, hblank hnone]
  page := by
    intro k hfirst hlast
    exact ⟨resolve_page hsize hcount hfirst hlast, span?_page hsize hcount hfirst hlast,
      page_nonempty hsize hfirst hlast⟩
  past hhits number hpast := resolve_past hsize hhits hcount hpast
  ends := span?_ends hsize hcount
  consecutive := by
    intro k hfirst hk
    exact ⟨_, _, _, span?_inner hsize hcount hfirst hk,
      span?_page hsize hcount (Nat.le_add_left 1 k) hk⟩
  covers i hi := existsUnique_page hsize hcount hi
  joined := by
    rintro α result rfl
    simp only [cut_slice hcount]
    rw [flatMap_range_pieces, List.take_of_length_le (le_totalFor_mul hsize _)]
  within number start stop hspan := span?_within hcount hspan

/-- The greatest result is tiled by two pages, one of which has a single row. -/
theorem greatest_result_tiled :
    0 < greatestCount - 1 ∧ greatestCount ≤ greatestCount ∧
      Tiles (greatestCount - 1) greatestCount ∧
      span? (greatestCount - 1) greatestCount 2 = some (greatestCount - 1, greatestCount) := by
  have hsize : 0 < greatestCount - 1 := by decide
  have hcount : greatestCount ≤ greatestCount := Nat.le_refl _
  exact ⟨hsize, hcount, pages_tile_result hsize hcount, by decide⟩

/-- Without hits no page is the last, but the number 1 asks for the blank page. -/
theorem blank_page_past_the_end :
    Page.totalFor 0 10 < 1 ∧ resolve 1 10 0 = .ok .blank ∧
      ¬ ∀ (size hits : Nat) (number : Int), 0 < size → hits ≤ greatestCount →
        (Page.totalFor hits size : Int) < number →
        ∃ offset, resolve number size hits = .ok (.slice 1 offset) := by
  have hblank : resolve 1 10 0 = .ok .blank := rfl
  refine ⟨by decide, hblank, ?_⟩
  intro hfirst
  rcases hfirst 10 0 1 (by decide) (by decide) (by decide) with ⟨offset, hslice⟩
  rw [hblank] at hslice
  cases hslice

end Tilings

end PageWindow

end ArchiveCatalog
