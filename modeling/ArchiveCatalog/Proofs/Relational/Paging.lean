import ArchiveCatalog.Proofs.Action
import ArchiveCatalog.Proofs.Window
import ArchiveCatalog.Relational.Store

namespace ArchiveCatalog.Relational

/-! # Pages of rows

Statements count rows and limit them in signed words. A count that does not fit stops at the
greatest signed word, and no database has more rows than that. So rows are counted right, and a
limit or an offset lets through what the count it was made of would: where it stopped, all rows
there are have been let through or skipped already.
-/

section Rows

variable {α : Type} {rows : List α}

/-- The rows are counted right as long as a signed word holds their number. -/
theorem readCount_countRows (hfew : rows.length ≤ greatestSigned) :
    readCount (countRows rows) = rows.length := by
  have hlt : rows.length < 1 <<< 63 := by
    unfold greatestSigned at hfew
    omega
  have hword : signedWord rows.length = rows.length := signedWord_eq hlt
  rw [readCount, countRows, hword, Int.toNat_natCast]

theorem toNat_signedCount (n : Nat) : (signedCount n).toNat = min n greatestSigned := by
  unfold signedCount
  omega

theorem signedCount_nonneg (n : Nat) : 0 ≤ signedCount n := by
  unfold signedCount
  omega

/-- A limit and an offset that stopped at the greatest signed word make no difference. -/
theorem limitRows_signedCount (hfew : rows.length ≤ greatestSigned) (limit offset : Nat) :
    limitRows (signedCount limit) (signedCount offset) rows = (rows.drop offset).take limit := by
  -- an offset that stopped short skips all rows there are, as the one it stands for would
  have hdrop : rows.drop (min offset greatestSigned) = rows.drop offset := by
    rcases Nat.le_total offset greatestSigned with hle | hge
    · rw [Nat.min_eq_left hle]
    · rw [Nat.min_eq_right hge, List.drop_eq_nil_of_le hfew,
        List.drop_eq_nil_of_le (Nat.le_trans hfew hge)]
  have htake : ∀ rest : List α, rest.length ≤ greatestSigned →
      rest.take (min limit greatestSigned) = rest.take limit := by
    intro rest hrest
    rw [← List.take_take, List.take_of_length_le hrest]
  rw [limitRows, if_neg (Int.not_lt.2 (signedCount_nonneg limit)), toNat_signedCount,
    toNat_signedCount, hdrop]
  apply htake
  rw [List.length_drop]
  omega

/-- Without an offset a limit takes the first rows. -/
theorem limitRows_first (hfew : rows.length ≤ greatestSigned) (limit : Nat) :
    limitRows (signedCount limit) 0 rows = rows.take limit :=
  limitRows_signedCount hfew limit 0

theorem limitRows_noLimit (rows : List α) : limitRows noLimit 0 rows = rows := rfl

end Rows

namespace Store

variable {s : Store} {q : Query} {u : ProductType} {rows : List ProductRow}

/-- The statement for the rows of a window lets through those that lie in it. -/
theorem limitRows_extent (hfew : rows.length ≤ greatestSigned) (window : PageWindow) :
    limitRows (s.extent window).2 (s.extent window).1 rows = window.cut s.pageSize rows := by
  cases window with
  | blank => rfl
  | all => exact (limitRows_noLimit rows).trans (PageWindow.cut_all _ _).symm
  | slice number offset =>
    have hcount : rows.length ≤ greatestCount := Nat.le_trans hfew (by decide)
    exact (limitRows_signedCount hfew _ _).trans (PageWindow.cut_slice hcount _ _ _).symm

/-- The page of the rows that a query selects. -/
def pageOf (s : Store) (number : Int) (rows : List ProductRow) : Action Database Page := do
  let hits := readCount (countRows rows)
  let window ← .ofQuery (PageWindow.resolve number s.pageSize hits)
  if window = .blank then return Page.blank s.pageSize
  let (offset, limit) := s.extent window
  return window.page s.pageSize hits (← s.loadProducts (limitRows limit offset rows))

/-- What is counted and what is selected are the same rows: nothing happens in between. -/
theorem page_eq (number : Int) : s.page q u number = (do
    let (t, selection) ← .ofExcept (s.matching q u)
    s.ensureTables t
    s.pageOf number (selectedRows (← get) t selection)) := by
  unfold page
  refine bind_congr fun found => bind_congr fun _ => ?_
  -- reading the database and finding the window leave it as it was for the second statement
  funext db
  change Action.run _ db = Action.run _ db
  rw [Action.run_bind_ok (Action.run_get db), Action.run_bind_ok (Action.run_get db), pageOf,
    Action.run_bind, Action.run_bind, Action.ofQuery, Action.run_ofExcept]
  cases (PageWindow.resolve number s.pageSize
      (readCount (countRows (selectedRows db found.1 found.2)))).mapError CatalogError.query with
  | error e => rfl
  | ok window =>
    dsimp only
    split
    · rfl
    · exact Action.run_bind_ok (Action.run_get db)

/-- In so few rows a page is the part of them that lies in its window. -/
theorem pageOf_eq (hfew : rows.length ≤ greatestSigned) (number : Int) : s.pageOf number rows = do
    let window ← .ofQuery (PageWindow.resolve number s.pageSize rows.length)
    return window.page s.pageSize rows.length
      (← s.loadProducts (window.cut s.pageSize rows)) := by
  unfold pageOf
  rw [readCount_countRows hfew]
  refine bind_congr fun window => ?_
  by_cases hblank : window = .blank
  · rw [if_pos hblank, hblank]
    rfl
  · rw [if_neg hblank, ← limitRows_extent hfew]

end Store

end ArchiveCatalog.Relational
