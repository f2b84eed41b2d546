import Mathlib

/-! What a root reaches in a bounded number of hops, and the search for it layer by layer.

A search keeps what it has visited and the frontier, the part visited last (`Layer`). One
round replaces the frontier by its unvisited neighbours (`Layer.next`); an empty frontier
means that more hops reach nothing more (`Layer.within_of_done`). -/
namespace Sentinel.Library.Walk

variable {α : Type*} (adj : α → α → Prop) (root : α)

/-- Reached from the root in at most `n` hops. -/
inductive Within : Nat → α → Prop
  | root (n : Nat) : Within n root
  | hop {n : Nat} {x y : α} : Within n x → adj x y → Within (n + 1) y

variable {adj root}

theorem within_zero {x : α} : Within adj root 0 x ↔ x = root := by
  refine ⟨?_, ?_⟩
  · intro h
    cases h
    rfl
  · intro h
    rw [h]
    exact .root 0

theorem within_succ {n : Nat} {y : α} :
    Within adj root (n + 1) y ↔ y = root ∨ ∃ x, Within adj root n x ∧ adj x y := by
  refine ⟨?_, ?_⟩
  · intro h
    cases h with
    | root => exact .inl rfl
    | hop hx hxy => exact .inr ⟨_, hx, hxy⟩
  · intro h
    cases h with
    | inl h =>
      rw [h]
      exact .root _
    | inr h =>
      obtain ⟨x, hx, hxy⟩ := h
      exact .hop hx hxy

theorem Within.succ {n : Nat} {x : α} (h : Within adj root n x) : Within adj root (n + 1) x := by
  induction h with
  | root => exact .root _
  | hop _ hxy ih => exact .hop ih hxy

theorem Within.mono {m n : Nat} {x : α} (h : Within adj root m x) (hmn : m ≤ n) :
    Within adj root n x := by
  induction hmn with
  | refl => exact h
  | step _ ih => exact ih.succ

/-- More hops to choose from reach no less. -/
theorem Within.imp {adj' : α → α → Prop} (hadj : ∀ x y, adj x y → adj' x y) {n : Nat} {x : α}
    (h : Within adj root n x) : Within adj' root n x := by
  induction h with
  | root => exact .root _
  | hop _ hxy ih => exact .hop ih (hadj _ _ hxy)

theorem Within.trans {m n : Nat} {x y : α} (h : Within adj root m x) (h' : Within adj x n y) :
    Within adj root (m + n) y := by
  induction h' with
  | root n => exact h.mono (Nat.le_add_right m n)
  | hop _ hyz ih => exact .hop ih hyz

/-- A walk can be cut anywhere. -/
theorem within_add {m n : Nat} {y : α} :
    Within adj root (m + n) y ↔ ∃ x, Within adj root m x ∧ Within adj x n y := by
  refine ⟨fun h => ?_, fun ⟨x, hx, hy⟩ => hx.trans hy⟩
  induction n generalizing y with
  | zero => exact ⟨y, h, .root 0⟩
  | succ n ih =>
    rcases within_succ.mp h with rfl | ⟨z, hz, hzy⟩
    · exact ⟨y, .root m, .root _⟩
    · obtain ⟨x, hx, hxz⟩ := ih hz
      exact ⟨x, hx, .hop hxz hzy⟩

/-- The walk back. -/
theorem Within.back {n : Nat} {x : α} (h : Within adj root n x) : Within (fun x y => adj y x) x n root := by
  induction h with
  | root n => exact .root n
  | @hop n x y _ hxy ih =>
    have hfirst : Within (fun x y => adj y x) y 1 x := .hop (.root 0) hxy
    exact Nat.add_comm 1 n ▸ hfirst.trans ih

/-- Where a walk to `y` starts, the walk to `y` being of hops that start at something `P`. -/
theorem Within.start {P : α → Prop} (hadj : ∀ x y, adj x y → P x) {n : Nat} {y : α} (h : Within adj root n y)
    (hy : P y) : P root := by
  induction h with
  | root => exact hy
  | hop _ hxy ih => exact ih (hadj _ _ hxy)

/-- The state of a search after `k` rounds. -/
structure Layer (adj : α → α → Prop) (root : α) (k : Nat) (visited frontier : α → Prop) : Prop where
  visited : ∀ x, visited x ↔ Within adj root k x
  frontier : ∀ x, frontier x ↔ Within adj root k x ∧ ∀ j < k, ¬ Within adj root j x

theorem Layer.start : Layer adj root 0 (· = root) (· = root) where
  visited := fun x => within_zero.symm
  frontier := fun x => by simp [within_zero]

/-- One round: `found` has the neighbours of the frontier, and nothing else that was not
visited before. -/
theorem Layer.next {k : Nat} {visited frontier found : α → Prop}
    (h : Layer adj root k visited frontier)
    (hfound : ∀ y, found y → visited y ∨ ∃ x, frontier x ∧ adj x y)
    (hadj : ∀ x y, frontier x → adj x y → found y) :
    Layer adj root (k + 1) (fun y => visited y ∨ found y) (fun y => found y ∧ ¬ visited y) := by
  have reached : ∀ y, visited y ∨ found y ↔ Within adj root (k + 1) y := by
    intro y
    refine ⟨?_, ?_⟩
    · intro hy
      have hcases : visited y ∨ ∃ x, frontier x ∧ adj x y := hy.elim .inl (hfound y)
      cases hcases with
      | inl hy => exact ((h.visited y).mp hy).succ
      | inr hy =>
        obtain ⟨x, hx, hxy⟩ := hy
        exact .hop ((h.frontier x).mp hx).1 hxy
    · intro hy
      cases within_succ.mp hy with
      | inl hy => exact .inl ((h.visited y).mpr (hy ▸ .root k))
      | inr hy =>
        obtain ⟨x, hx, hxy⟩ := hy
        by_cases hlast : ∀ j < k, ¬ Within adj root j x
        · exact .inr (hadj x y ((h.frontier x).mpr ⟨hx, hlast⟩) hxy)
        · -- A neighbour of a node from an earlier round was found by then.
          push Not at hlast
          obtain ⟨j, hj, hxj⟩ := hlast
          exact .inl ((h.visited y).mpr ((Within.hop hxj hxy).mono hj))
  refine ⟨reached, fun y => ?_⟩
  refine ⟨?_, ?_⟩
  · intro hy
    refine ⟨(reached y).mp (.inr hy.1), fun j hj hyj => hy.2 ?_⟩
    exact (h.visited y).mpr (hyj.mono (Nat.lt_succ_iff.mp hj))
  · intro hy
    have hnew : ¬ visited y := fun hv => hy.2 k (Nat.lt_succ_self k) ((h.visited y).mp hv)
    exact ⟨((reached y).mpr hy.1).resolve_left hnew, hnew⟩

/-- Once the frontier is empty, what any number of hops reaches was reached before. -/
theorem Layer.within_of_done {k : Nat} {visited frontier : α → Prop}
    (h : Layer adj root k visited frontier) (hdone : ∀ x, ¬ frontier x) {n : Nat} {x : α}
    (hx : Within adj root n x) : ∃ j < k, Within adj root j x := by
  have earlier : ∀ {y}, Within adj root k y → ∃ j < k, Within adj root j y := by
    intro y hy
    by_contra hnone
    push Not at hnone
    exact hdone y ((h.frontier y).mpr ⟨hy, hnone⟩)
  induction hx with
  | root => exact earlier (.root k)
  | hop _ hxy ih =>
    obtain ⟨j, hj, hyj⟩ := ih
    exact earlier ((Within.hop hyj hxy).mono hj)

end Sentinel.Library.Walk
