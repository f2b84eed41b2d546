import Mathlib

/-! A map under writes, one key each.

A write replaces the entry of its key, and may look at what is there. What becomes of an
entry depends only on the writes with its key (`Written.entry`): the last of them made it
(`Chain.last`), and what each of them adds is added as often as there are (`Chain.counted`). -/
namespace Sentinel.Library.LastWrite

variable {α κ ρ : Type*}

section Chain
variable (W : α → Option ρ → ρ → Prop)

/-- The writes lead from the first entry to the second; `W a old new`: `a` makes `new` of
`old`. -/
inductive Chain : List α → Option ρ → Option ρ → Prop
  | nil (old : Option ρ) : Chain [] old old
  | cons {a : α} {rest : List α} {old final : Option ρ} {new : ρ} (h : W a old new)
      (hrest : Chain rest (some new) final) : Chain (a :: rest) old final

variable {W} {writes : List α} {old final : Option ρ}

theorem Chain.eq_of_nil (h : Chain W [] old final) : final = old := by
  cases h
  rfl

/-- A write is never undone. -/
theorem Chain.isSome (h : Chain W writes old final) : final.isSome ↔ old.isSome ∨ writes ≠ [] := by
  induction h with
  | nil old => simp
  | cons _ _ ih => simp [ih]

theorem Chain.last {a : α} (h : Chain W writes old final) (ha : writes.getLast? = some a) :
    ∃ before new, W a before new ∧ final = some new := by
  induction h with
  | nil old => cases ha
  | @cons b rest old final new hwrite hrest ih =>
    cases rest with
    | nil =>
      cases ha
      exact ⟨old, new, hwrite, hrest.eq_of_nil⟩
    | cons c rest => exact ih (by simpa using ha)

/-- What every write of an entry that is there carries one further. -/
theorem Chain.counted {P : ℕ → ρ → Prop} (hstep : ∀ n a r new, P n r → W a (some r) new → P (n + 1) new) {n : ℕ}
    {r : ρ} (h : Chain W writes (some r) final) (hr : P n r) : ∃ new, final = some new ∧ P (n + writes.length) new := by
  generalize hold : some r = old at h
  induction h generalizing n r with
  | nil old => exact ⟨r, hold.symm, hr⟩
  | @cons a rest old final new hwrite _ ih =>
    subst hold
    obtain ⟨entry, hentry, hP⟩ := ih (hstep n a r new hr hwrite) rfl
    refine ⟨entry, hentry, ?_⟩
    rw [List.length_cons, Nat.add_comm rest.length 1, ← Nat.add_assoc]
    exact hP

end Chain

section Written
variable [DecidableEq κ] (key : α → κ) (W : α → Option ρ → ρ → Prop)

/-- The writes lead from the first map to the second. -/
inductive Written : List α → (κ → Option ρ) → (κ → Option ρ) → Prop
  | nil (m : κ → Option ρ) : Written [] m m
  | cons {a : α} {rest : List α} {m m' : κ → Option ρ} {new : ρ} (h : W a (m (key a)) new)
      (hrest : Written rest (Function.update m (key a) (some new)) m') : Written (a :: rest) m m'

variable {key W} {writes : List α} {m m' : κ → Option ρ}

/-- An entry sees the writes with its key. -/
theorem Written.entry (h : Written key W writes m m') (k : κ) :
    Chain W (writes.filter fun a => key a = k) (m k) (m' k) := by
  induction h with
  | nil m => exact .nil (m k)
  | @cons a rest m m' new hwrite _ ih =>
    by_cases hk : key a = k
    · rw [List.filter_cons_of_pos (by simpa using hk)]
      subst hk
      rw [Function.update_self] at ih
      exact .cons hwrite ih
    · rw [List.filter_cons_of_neg (by simpa using hk)]
      rw [Function.update_of_ne (Ne.symm hk)] at ih
      exact ih

/-- An entry nobody writes stays. -/
theorem Written.untouched (h : Written key W writes m m') {k : κ} (hk : ∀ a ∈ writes, key a ≠ k) : m' k = m k := by
  have hnone : writes.filter (fun a => key a = k) = [] := List.filter_eq_nil_iff.mpr (by simpa using hk)
  have hentry := h.entry k
  rw [hnone] at hentry
  exact hentry.eq_of_nil

end Written
end Sentinel.Library.LastWrite
