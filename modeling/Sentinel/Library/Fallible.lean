import Mathlib

/-! How a computation that may fail ends, and the rules to prove it step by step. -/
namespace Sentinel.Library.Fallible

variable {ε α β : Type*}

/-- It fails only as `failed` says, and else returns what `post` says. -/
def Ends (failed : ε → Prop) (post : α → Prop) : Except ε α → Prop
  | .error f => failed f
  | .ok a => post a

variable {failed : ε → Prop} {post mid : α → Prop}

theorem Ends.mono {failed' : ε → Prop} {post' : α → Prop} {r : Except ε α} (h : Ends failed post r)
    (hfailed : ∀ f, failed f → failed' f) (hpost : ∀ a, post a → post' a) : Ends failed' post' r := by
  cases r with
  | error f => exact hfailed f h
  | ok a => exact hpost a h

theorem Ends.bind {post : β → Prop} {r : Except ε α} {k : α → Except ε β} (h : Ends failed mid r)
    (hk : ∀ a, mid a → Ends failed post (k a)) : Ends failed post (r.bind k) := by
  cases r with
  | error f => exact h
  | ok a => exact hk a h

theorem Ends.map {post : β → Prop} {r : Except ε α} {g : α → β} (h : Ends failed mid r)
    (hg : ∀ a, mid a → post (g a)) : Ends failed post (r.map g) := by
  cases r with
  | error f => exact h
  | ok a => exact hg a h

theorem Ends.mapError {ε' : Type*} {failed' : ε' → Prop} {r : Except ε α} {g : ε → ε'}
    (h : Ends failed post r) (hg : ∀ f, failed f → failed' (g f)) : Ends failed' post (r.mapError g) := by
  cases r with
  | error f => exact hg f h
  | ok a => exact h

/-- A computation whose failures do not matter. -/
theorem Ends.any {r : Except ε α} (h : ∀ a, r = .ok a → post a) : Ends (fun _ => True) post r := by
  cases r with
  | error f => exact trivial
  | ok a => exact h a rfl

theorem Ends.of_ok {r : Except ε α} (h : Ends failed post r) {a : α} (ha : r = .ok a) : post a := by
  rw [ha] at h
  exact h

theorem Ends.of_error {r : Except ε α} (h : Ends failed post r) {f : ε} (hf : r = .error f) : failed f := by
  rw [hf] at h
  exact h

/-! ### When it returns -/

/-- It returns exactly when `c`, and then what `post` says. -/
def Returns (c : Prop) (post : α → Prop) : Except ε α → Prop
  | .error _ => ¬ c
  | .ok a => c ∧ post a

theorem Returns.ok {a : α} (ha : post a) : Returns True post (.ok a : Except ε α) := ⟨trivial, ha⟩

theorem Returns.congr {c d : Prop} {r : Except ε α} (h : Returns c post r) (hcd : c ↔ d) :
    Returns d post r := by
  rw [← propext hcd]
  exact h

theorem Returns.mono {c : Prop} {post' : α → Prop} {r : Except ε α} (h : Returns c post r)
    (hpost : ∀ a, post a → post' a) : Returns c post' r := by
  cases r with
  | error f => exact h
  | ok a => exact ⟨h.1, hpost a h.2⟩

theorem Returns.bind {c d : Prop} {post : β → Prop} {r : Except ε α} {k : α → Except ε β}
    (h : Returns c mid r) (hk : ∀ a, mid a → Returns d post (k a)) : Returns (c ∧ d) post (r.bind k) := by
  cases r with
  | error f => exact fun hcd => h hcd.1
  | ok a => exact (hk a h.2).congr (and_iff_right h.1).symm

theorem Returns.map {c : Prop} {post : β → Prop} {r : Except ε α} {g : α → β} (h : Returns c mid r)
    (hg : ∀ a, mid a → post (g a)) : Returns c post (r.map g) := by
  cases r with
  | error f => exact h
  | ok a => exact ⟨h.1, hg a h.2⟩

theorem Returns.mapError {ε' : Type*} {c : Prop} {r : Except ε α} {g : ε → ε'} (h : Returns c post r) :
    Returns c post (r.mapError g) := by
  cases r with
  | error f => exact h
  | ok a => exact h

/-- A test that stops the computation when it fails. -/
theorem Returns.ite {b c : Prop} [Decidable b] {r : Except ε α} {f : ε} (h : b → Returns c post r) :
    Returns (b ∧ c) post (if b then r else .error f) := by
  by_cases hb : b
  · rw [if_pos hb]
    exact (h hb).congr (and_iff_right hb).symm
  · rw [if_neg hb]
    exact fun hbc => hb hbc.1

/-- A computation in two parts returns when both do. -/
theorem bind_eq_ok {α β : Type} {r : Except ε α} {k : α → Except ε β} {b : β} :
    r >>= k = .ok b ↔ ∃ a, r = .ok a ∧ k a = .ok b := by
  cases r with
  | error f =>
    refine iff_of_false (fun h => ?_) fun ⟨a, ha, _⟩ => ?_
    · cases h
    · cases ha
  | ok a =>
    refine ⟨?_, ?_⟩
    · intro h
      exact ⟨a, rfl, h⟩
    · intro h
      obtain ⟨a', ha, hk⟩ := h
      cases ha
      exact hk

theorem map_eq_ok {r : Except ε α} {g : α → β} {b : β} : r.map g = .ok b ↔ ∃ a, r = .ok a ∧ g a = b := by
  cases r with
  | error f => simp [Except.map]
  | ok a => simp [Except.map]

theorem mapError_eq_ok {ε' : Type*} {r : Except ε α} {g : ε → ε'} {a : α} : r.mapError g = .ok a ↔ r = .ok a := by
  cases r with
  | error f => simp [Except.mapError]
  | ok a => simp [Except.mapError]

theorem toOption_eq_some {r : Except ε α} {a : α} : r.toOption = some a ↔ r = .ok a := by
  cases r with
  | error f => simp [Except.toOption]
  | ok a => simp [Except.toOption]

/-! ### Transactions -/

section Transactions
variable {σ : Type*} {r : Except ε (α × σ)} {s : σ}

/-- What a transaction returns, and the state it leaves: its own, or after a failure the one
it began in. -/
def transaction (r : Except ε (α × σ)) (s : σ) : Except ε α × σ :=
  match r with
  | .ok (a, t) => (.ok a, t)
  | .error f => (.error f, s)

/-- What holds at first and after a success holds after the transaction. -/
theorem transaction_state {P : σ → Prop} (hs : P s) (hr : ∀ a t, r = .ok (a, t) → P t) : P (transaction r s).2 := by
  cases r with
  | error f => exact hs
  | ok p => exact hr p.1 p.2 rfl

end Transactions
end Sentinel.Library.Fallible
