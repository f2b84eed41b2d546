import Mathlib

/-! Rows a query returns: in order under `ORDER BY`, and in any order without. -/
namespace Sentinel.Library.Query

/-- The orders in which a query without `ORDER BY` returns its rows, call by call. -/
structure RowOrder (ρ : Type*) where
  arrange : Nat → List ρ → List ρ
  perm : ∀ call rows, (arrange call rows).Perm rows

/-- The rows as they are stored. -/
def RowOrder.stored (ρ : Type*) : RowOrder ρ where
  arrange := fun _ rows => rows
  perm := fun _ rows => .refl rows

variable {ρ : Type*} (before : ρ → ρ → Prop) [DecidableRel before]

/-- `ORDER BY`; rows the order does not separate stay as they were. -/
def orderBy (rows : List ρ) : List ρ := rows.insertionSort before

/-- `ORDER BY … LIMIT 1`. -/
def first (rows : List ρ) : Option ρ := (orderBy before rows).head?

variable {before}

theorem orderBy_perm (rows : List ρ) : (orderBy before rows).Perm rows :=
  List.perm_insertionSort _ _

theorem mem_of_first {rows : List ρ} {r : ρ} (h : first before rows = some r) : r ∈ rows :=
  (orderBy_perm rows).mem_iff.mp (List.mem_of_head? h)

theorem first_eq_none {rows : List ρ} : first before rows = none ↔ rows = [] := by
  rw [first, List.head?_eq_none_iff, ← List.length_eq_zero_iff, (orderBy_perm rows).length_eq,
    List.length_eq_zero_iff]

/-- The first row stands before every other. -/
theorem before_of_first [Std.Total before] [IsTrans ρ before] {rows : List ρ} {r q : ρ}
    (h : first before rows = some r) (hq : q ∈ rows) : before r q := by
  have hsorted : (orderBy before rows).Pairwise before := List.pairwise_insertionSort _ _
  obtain ⟨rest, heq⟩ := List.head?_eq_some_iff.mp h
  have hq' : q ∈ orderBy before rows := (orderBy_perm rows).mem_iff.mpr hq
  rw [heq] at hsorted hq'
  rcases List.mem_cons.mp hq' with rfl | hmem
  · exact (Std.Total.total q q).elim id id
  · exact List.rel_of_pairwise_cons hsorted hmem

theorem first_cons (r : ρ) (rows : List ρ) : first before (r :: rows) =
    match first before rows with
    | none => some r
    | some q => if before r q then some r else some q := by
  simp only [first, orderBy, List.insertionSort_cons]
  cases h : List.insertionSort before rows with
  | nil => rfl
  | cons q rest =>
    simp only [List.orderedInsert_cons, List.head?_cons]
    split_ifs <;> rfl

/-- A row added at the end comes first only if the first row so far does not stand before it. -/
theorem first_snoc [Std.Total before] [IsTrans ρ before] (rows : List ρ) (last : ρ) :
    first before (rows ++ [last]) =
      match first before rows with
      | none => some last
      | some p => if before p last then some p else some last := by
  induction rows with
  | nil => rfl
  | cons x rest ih =>
    rw [List.cons_append, first_cons, first_cons, ih]
    cases hp : first before rest with
    | none => rfl
    | some p =>
      by_cases hpl : before p last
      · by_cases hxp : before x p
        · have hxl : before x last := IsTrans.trans _ _ _ hxp hpl
          simp [hpl, hxp, hxl]
        · simp [hpl, hxp]
      · have hlp : before last p := (Std.Total.total p last).resolve_left hpl
        by_cases hxp : before x p
        · simp [hpl, hxp]
        · have hxl : ¬ before x last := fun h => hxp (IsTrans.trans _ _ _ h hlp)
          simp [hpl, hxp, hxl]

theorem first_snoc_of_before [Std.Total before] [IsTrans ρ before] {rows : List ρ} {r last : ρ}
    (hr : r ∈ rows) (hbefore : before r last) :
    first before (rows ++ [last]) = first before rows := by
  rw [first_snoc]
  cases hp : first before rows with
  | none =>
    rw [first_eq_none] at hp
    simp [hp] at hr
  | some p =>
    have hpl : before p last := IsTrans.trans _ _ _ (before_of_first hp hr) hbefore
    simp [hpl]

end Sentinel.Library.Query
