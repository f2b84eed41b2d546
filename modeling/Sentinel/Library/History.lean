import Sentinel.Library.Transition

/-! Machines that remember the steps they took.

What a step may do can depend on the order of earlier ones: whether something happened
since a party last looked. `remember step` is the machine beside the list of its moments,
the states it left with the action it left them by, the last one first. It takes the same
runs (`always_remember`), so a condition on the past is a condition on its steps. -/
namespace Sentinel.Library.History
open Transition

/-- A state, and the action taken in it. -/
abbrev Moment (σ α : Type*) := σ × α

structure Remembered (σ α : Type*) where
  now : σ
  past : List (Moment σ α)

variable {σ α : Type*} {step : α → σ → Option σ}

def start (s : σ) : Remembered σ α := ⟨s, []⟩

def remember (step : α → σ → Option σ) (a : α) (h : Remembered σ α) : Option (Remembered σ α) :=
  (step a h.now).map fun s => ⟨s, (h.now, a) :: h.past⟩

theorem remember_eq_some {a : α} {h h' : Remembered σ α} :
    remember step a h = some h' ↔ step a h.now = some h'.now ∧ h'.past = (h.now, a) :: h.past := by
  constructor
  · intro hstep
    obtain ⟨s, hs, rfl⟩ := Option.map_eq_some_iff.mp hstep
    exact ⟨hs, rfl⟩
  · rintro ⟨hs, hpast⟩
    obtain ⟨now, past⟩ := h'
    obtain rfl : past = _ := hpast
    exact Option.map_eq_some_iff.mpr ⟨now, hs, rfl⟩

/-- What is remembered changes nothing. -/
theorem always_remember {P : σ → Prop} {actions : List α} {h : Remembered σ α} :
    Always (remember step) (fun h => P h.now) actions h ↔ Always step P actions h.now := by
  induction actions generalizing h with
  | nil => exact Iff.rfl
  | cons a rest ih =>
    refine and_congr Iff.rfl ⟨?_, ?_⟩
    · intro hrest s hs
      exact ih.mp (hrest ⟨s, (h.now, a) :: h.past⟩ (remember_eq_some.mpr ⟨hs, rfl⟩))
    · intro hrest h' hstep
      exact ih.mpr (hrest h'.now (remember_eq_some.mp hstep).1)

/-! ### Since and before

`p` tells the moments that count; the last of them splits the past. -/

section Split
variable (p : Moment σ α → Bool)

/-- The moments after the last that counts. -/
def since (past : List (Moment σ α)) : List (Moment σ α) := past.takeWhile fun m => !p m

/-- The moments before the last that counts. -/
def before (past : List (Moment σ α)) : List (Moment σ α) := (past.dropWhile fun m => !p m).tail

variable {p} {m : Moment σ α} {past : List (Moment σ α)}

theorem since_cons_of_neg (h : p m = false) : since p (m :: past) = m :: since p past := by
  simp [since, h]

theorem before_cons_of_pos (h : p m = true) : before p (m :: past) = past := by
  simp [before, h]

theorem before_cons_of_neg (h : p m = false) : before p (m :: past) = before p past := by
  simp [before, h]

theorem mem_of_before (h : m ∈ before p past) : m ∈ past :=
  (List.dropWhile_suffix _).subset (List.mem_of_mem_tail h)

end Split

end Sentinel.Library.History
