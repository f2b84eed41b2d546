import Sentinel.Library.Query
import Sentinel.Library.Table

/-! Paging through rows by a unique key, one row looked ahead.

A page has the first rows after the cursor; if there are more, its last key is the next
cursor. The rows may change from one request to the next (`Pages`): what is there all the
time is still found once (`Pages.complete`), and the requests come to an end
(`exists_pages`). -/
namespace Sentinel.Library.Keyset

variable {ρ κ : Type*} [LinearOrder κ] (key : ρ → κ)

/-- The rows after a cursor. -/
def after (cursor : Option κ) (rows : List ρ) : List ρ := rows.filter fun r => cursor.all (· < key r)

/-- `ORDER BY key LIMIT limit + 1`, and the next cursor. -/
def page (limit : Nat) (rows : List ρ) : List ρ × Option κ :=
  let found := (Query.orderBy (fun a b => key a ≤ key b) rows).take (limit + 1)
  if limit < found.length then (found.take limit, (found[limit - 1]?).map key) else (found, none)

variable {key} {limit : Nat} {rows : List ρ}

theorem mem_after {cursor : Option κ} {r : ρ} : r ∈ after key cursor rows ↔ r ∈ rows ∧ ∀ k ∈ cursor, k < key r := by
  rw [after, List.mem_filter]
  cases cursor with
  | none => simp
  | some k => simp

theorem sorted_orderBy (h : Table.Unique key rows) :
    ((Query.orderBy (fun a b => key a ≤ key b) rows).map key).Pairwise (· < ·) := by
  have hsorted : (Query.orderBy (fun a b => key a ≤ key b) rows).Pairwise fun a b => key a ≤ key b :=
    List.pairwise_insertionSort _ _
  have hnodup : ((Query.orderBy (fun a b => key a ≤ key b) rows).map key).Nodup :=
    ((Query.orderBy_perm rows).map key).nodup_iff.mpr h
  rw [List.pairwise_map]
  exact (hsorted.and (List.pairwise_map.mp hnodup)).imp fun h => lt_of_le_of_ne h.1 h.2

variable (key limit) in
/-- What a page has of the rows. -/
structure PageOf (rows found : List ρ) (next : Option κ) : Prop where
  length : found.length ≤ limit
  sorted : (found.map key).Pairwise (· < ·)
  mem : ∀ r ∈ found, r ∈ rows
  last : ∀ k, next = some k → ∃ r, found.getLast? = some r ∧ key r = k
  rest : ∀ r ∈ rows, r ∈ found ∨ ∃ k, next = some k ∧ k < key r

theorem pageOf_page (hlimit : 1 ≤ limit) (h : Table.Unique key rows) :
    PageOf key limit rows (page key limit rows).1 (page key limit rows).2 := by
  have hsorted := sorted_orderBy h
  have hmem : ∀ r, r ∈ Query.orderBy (fun a b => key a ≤ key b) rows ↔ r ∈ rows :=
    fun r => (Query.orderBy_perm rows).mem_iff
  unfold page
  generalize Query.orderBy (fun a b => key a ≤ key b) rows = sorted at hsorted hmem
  show PageOf key limit rows (Prod.fst (if _ then _ else _)) (Prod.snd (if _ then _ else _))
  by_cases hmore : limit < (sorted.take (limit + 1)).length
  · rw [if_pos hmore]
    rw [List.length_take] at hmore
    have hlast : limit - 1 < sorted.length := by omega
    have hfound : (sorted.take (limit + 1)).take limit = sorted.take limit := by
      rw [List.take_take, Nat.min_eq_left (Nat.le_succ limit)]
    have hcursor : (sorted.take (limit + 1))[limit - 1]? = some sorted[limit - 1] := by
      rw [List.getElem?_take_of_lt (by omega), List.getElem?_eq_getElem hlast]
    rw [hfound, hcursor]
    constructor
    case length => exact List.length_take_le limit sorted
    case sorted => exact hsorted.sublist ((List.take_sublist limit sorted).map key)
    case mem => exact fun r hr => (hmem r).mp (List.mem_of_mem_take hr)
    case last =>
      intro k hk
      refine ⟨sorted[limit - 1], ?_, Option.some.inj hk⟩
      rw [List.getLast?_eq_getElem?, List.length_take_of_le (by omega), List.getElem?_take_of_lt (by omega),
        List.getElem?_eq_getElem hlast]
    case rest =>
      intro r hr
      obtain ⟨i, hi, rfl⟩ := List.getElem_of_mem ((hmem r).mpr hr)
      by_cases hi' : i < limit
      · exact .inl (List.mem_take_iff_getElem.mpr ⟨i, by omega, rfl⟩)
      · have hlt := List.pairwise_iff_getElem.mp hsorted (limit - 1) i (by simpa using hlast) (by simpa using hi)
          (by omega)
        rw [List.getElem_map, List.getElem_map] at hlt
        exact .inr ⟨_, rfl, hlt⟩
  · rw [if_neg hmore]
    rw [List.length_take] at hmore
    have hall : sorted.take (limit + 1) = sorted := List.take_of_length_le (by omega)
    rw [hall]
    constructor
    case length =>
      show sorted.length ≤ limit
      omega
    case sorted => exact hsorted
    case mem => exact fun r hr => (hmem r).mp hr
    case last => exact fun k hk => nomatch hk
    case rest => exact fun r hr => .inl ((hmem r).mpr hr)

/-! ### Page after page -/

variable (key limit) in
/-- The pages of requests from the `i`-th on, each under the cursor of the page before,
until there is no next cursor. -/
inductive Pages (snapshots : Nat → List ρ) : Nat → Option κ → List (List ρ × Option κ) → Prop
  | last {i : Nat} {cursor : Option κ} {found : List ρ} :
    page key limit (after key cursor (snapshots i)) = (found, none) → Pages snapshots i cursor [(found, none)]
  | more {i : Nat} {cursor : Option κ} {found : List ρ} {next : κ} {pages : List (List ρ × Option κ)} :
    page key limit (after key cursor (snapshots i)) = (found, some next) →
    Pages snapshots (i + 1) (some next) pages → Pages snapshots i cursor ((found, some next) :: pages)

section Pages
variable {snapshots : Nat → List ρ} {i : Nat} {cursor : Option κ} {pages : List (List ρ × Option κ)}

theorem unique_after (h : Table.Unique key rows) : Table.Unique key (after key cursor rows) :=
  List.Nodup.sublist (List.filter_sublist.map key) h

theorem pageOf_after (hlimit : 1 ≤ limit) (hunique : ∀ i, Table.Unique key (snapshots i)) {found : List ρ}
    {next : Option κ} (h : page key limit (after key cursor (snapshots i)) = (found, next)) :
    PageOf key limit (after key cursor (snapshots i)) found next := by
  have hrows : Table.Unique key (after key cursor (snapshots i)) := unique_after (hunique i)
  have hpage := pageOf_page hlimit hrows
  rw [h] at hpage
  exact hpage

/-- The keys of all pages increase, from the cursor on. -/
theorem Pages.sorted (hlimit : 1 ≤ limit) (hunique : ∀ i, Table.Unique key (snapshots i))
    (h : Pages key limit snapshots i cursor pages) :
    ((pages.flatMap Prod.fst).map key).Pairwise (· < ·) ∧
      ∀ r ∈ pages.flatMap Prod.fst, ∀ k ∈ cursor, k < key r := by
  induction h with
  | last hpage =>
    have hof := pageOf_after hlimit hunique hpage
    rw [List.flatMap_singleton]
    exact ⟨hof.sorted, fun r hr => (mem_after.mp (hof.mem r hr)).2⟩
  | @more i cursor found next pages hpage _ ih =>
    have hof := pageOf_after hlimit hunique hpage
    have hafter : ∀ r ∈ found, ∀ k ∈ cursor, k < key r := fun r hr => (mem_after.mp (hof.mem r hr)).2
    obtain ⟨last, hlast, hkey⟩ := hof.last next rfl
    -- Every row of the page is at most its last, which is the cursor of the rest.
    have hle : ∀ r ∈ found, key r ≤ next := by
      intro r hr
      obtain ⟨init, rfl⟩ := List.getLast?_eq_some_iff.mp hlast
      cases List.mem_append.mp hr with
      | inl hr =>
        have hsorted := hof.sorted
        rw [List.map_append, List.pairwise_append] at hsorted
        exact hkey ▸ (hsorted.2.2 _ (List.mem_map_of_mem hr) _ (by simp)).le
      | inr hr => exact (congrArg key (List.mem_singleton.mp hr)).le.trans hkey.le
    rw [List.flatMap_cons]
    refine ⟨?_, ?_⟩
    · rw [List.map_append, List.pairwise_append]
      refine ⟨hof.sorted, ih.1, ?_⟩
      intro x hx y hy
      obtain ⟨r, hr, rfl⟩ := List.mem_map.mp hx
      obtain ⟨q, hq, rfl⟩ := List.mem_map.mp hy
      exact (hle r hr).trans_lt (ih.2 q hq next rfl)
    · intro r hr k hk
      cases List.mem_append.mp hr with
      | inl hr => exact hafter r hr k hk
      | inr hr =>
        have hmem : last ∈ found := List.mem_of_getLast? hlast
        exact (hafter last hmem k hk).trans (hkey ▸ ih.2 r hr next rfl)

/-- A key after the cursor that is in every snapshot is found. -/
theorem Pages.complete (hlimit : 1 ≤ limit) (hunique : ∀ i, Table.Unique key (snapshots i))
    (h : Pages key limit snapshots i cursor pages) {x : κ} (hx : ∀ k ∈ cursor, k < x)
    (hthere : ∀ j < pages.length, x ∈ (snapshots (i + j)).map key) : x ∈ (pages.flatMap Prod.fst).map key := by
  induction h with
  | last hpage =>
    have hof := pageOf_after hlimit hunique hpage
    obtain ⟨r, hr, rfl⟩ := List.mem_map.mp (hthere 0 (by simp))
    rw [List.flatMap_singleton]
    cases hof.rest r (mem_after.mpr ⟨hr, hx⟩) with
    | inl hfound => exact List.mem_map_of_mem hfound
    | inr hnext =>
      obtain ⟨k, hk, _⟩ := hnext
      cases hk
  | @more i cursor found next pages hpage _ ih =>
    have hof := pageOf_after hlimit hunique hpage
    obtain ⟨r, hr, rfl⟩ := List.mem_map.mp (hthere 0 (by simp))
    rw [List.flatMap_cons, List.map_append, List.mem_append]
    cases hof.rest r (mem_after.mpr ⟨hr, hx⟩) with
    | inl hfound => exact .inl (List.mem_map_of_mem hfound)
    | inr hnext =>
      obtain ⟨k, hk, hlt⟩ := hnext
      refine .inr (ih ?_ ?_)
      · intro k' hk'
        exact Option.some.inj (hk.symm.trans hk') ▸ hlt
      · intro j hj
        have hlater := hthere (j + 1) (by simpa using hj)
        rwa [show i + (j + 1) = i + 1 + j by omega] at hlater

/-- Each page, against the rows of its request: only the last has no next cursor, and then
no row has a key greater than all that were found. -/
theorem Pages.page (hlimit : 1 ≤ limit) (hunique : ∀ i, Table.Unique key (snapshots i))
    (h : Pages key limit snapshots i cursor pages) {j : Nat} {found : List ρ} {next : Option κ}
    (hj : pages[j]? = some (found, next)) :
    found.length ≤ limit ∧ (∀ r ∈ found, r ∈ snapshots (i + j)) ∧
    (∀ k, next = some k → ∃ r, found.getLast? = some r ∧ key r = k) ∧
    (next = none → ∀ r ∈ snapshots (i + j), (∃ k ∈ cursor, key r ≤ k) ∨
      ∃ q ∈ pages.flatMap Prod.fst, key r ≤ key q) := by
  induction h generalizing j with
  | @last i cursor rows hpage =>
    have hof := pageOf_after hlimit hunique hpage
    obtain ⟨rfl, heq⟩ : j = 0 ∧ (rows, none) = (found, next) := by
      cases j with
      | zero => exact ⟨rfl, Option.some.inj hj⟩
      | succ j => simp at hj
    cases heq
    refine ⟨hof.length, fun r hr => (mem_after.mp (hof.mem r hr)).1, hof.last, ?_⟩
    intro _ r hr
    by_cases hcursor : ∀ k ∈ cursor, k < key r
    · cases hof.rest r (mem_after.mpr ⟨hr, hcursor⟩) with
      | inl hfound =>
        rw [List.flatMap_singleton]
        exact .inr ⟨r, hfound, le_rfl⟩
      | inr hnext =>
        obtain ⟨k, hk, _⟩ := hnext
        cases hk
    · push Not at hcursor
      exact .inl hcursor
  | @more i cursor rows k pages hpage _ ih =>
    have hof := pageOf_after hlimit hunique hpage
    cases j with
    | zero =>
      cases Option.some.inj hj
      exact ⟨hof.length, fun r hr => (mem_after.mp (hof.mem r hr)).1, hof.last, fun hnone => nomatch hnone⟩
    | succ j =>
      obtain ⟨hlength, hmem, hlast, hrest⟩ := ih hj
      rw [show i + 1 + j = i + (j + 1) by omega] at hmem hrest
      refine ⟨hlength, hmem, hlast, ?_⟩
      intro hnone r hr
      rw [List.flatMap_cons]
      cases hrest hnone r hr with
      | inl hk =>
        -- The cursor of the rest is the key of the last row of this page.
        obtain ⟨k', hk', hle⟩ := hk
        obtain ⟨q, hq, hkey⟩ := hof.last k rfl
        refine .inr ⟨q, List.mem_append_left _ (List.mem_of_getLast? hq), ?_⟩
        rw [hkey, Option.some.inj hk']
        exact hle
      | inr hq =>
        obtain ⟨q, hq, hle⟩ := hq
        exact .inr ⟨q, List.mem_append_right _ hq, hle⟩

/-- The requests come to an end. -/
theorem exists_pages [WellFoundedGT κ] (hlimit : 1 ≤ limit) (hunique : ∀ i, Table.Unique key (snapshots i))
    (i : Nat) (cursor : Option κ) : ∃ pages, Pages key limit snapshots i cursor pages := by
  have hstep : ∀ i cursor, (∀ k, (∀ c ∈ cursor, c < k) → ∃ pages, Pages key limit snapshots (i + 1) (some k) pages) →
      ∃ pages, Pages key limit snapshots i cursor pages := by
    intro i cursor hrest
    cases hpage : page key limit (after key cursor (snapshots i)) with
    | mk found next =>
      cases next with
      | none => exact ⟨_, .last hpage⟩
      | some k =>
        have hof := pageOf_after hlimit hunique hpage
        obtain ⟨r, hr, rfl⟩ := hof.last k rfl
        obtain ⟨pages, hpages⟩ := hrest (key r) (mem_after.mp (hof.mem r (List.mem_of_getLast? hr))).2
        exact ⟨_, .more hpage hpages⟩
  have hsome : ∀ k i, ∃ pages, Pages key limit snapshots i (some k) pages := by
    intro k
    induction k using WellFoundedGT.induction with
    | ind k ih =>
      intro i
      apply hstep
      intro k' hk'
      exact ih k' (hk' k rfl) (i + 1)
  cases cursor with
  | none => exact hstep i none fun k _ => hsome k (i + 1)
  | some k => exact hsome k i

end Pages
end Sentinel.Library.Keyset
