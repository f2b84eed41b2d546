import Mathlib

/-! Machines that take labelled steps, and what holds along their runs.

A step is a function of an action and a state, and it may refuse the action
(`none`): a lock is held by someone else, a party is in another phase. A run is a
list of actions and stops at the first one refused. Three ways to speak of a
run: a state it reaches (`Reachable`), every state on the way (`Always`), every
step it takes (`EveryStep`). Each invariant argument is one of the rules below. -/
namespace Sentinel.Library.Transition

variable {σ α : Type*} (step : α → σ → Option σ)

/-- The state after the actions, if none of them is refused. -/
def run : List α → σ → Option σ
  | [], s => some s
  | a :: rest, s => (step a s).bind (run rest)

/-- Some run leads from the first state to the second. -/
def Reachable (s t : σ) : Prop := ∃ actions, run step actions s = some t

/-- `P` holds in every state of the run, the first included. -/
def Always (P : σ → Prop) : List α → σ → Prop
  | [], s => P s
  | a :: rest, s => P s ∧ ∀ t, step a s = some t → Always P rest t

/-- `Q` holds of every step of the run: the state before, the action, the state after. -/
def EveryStep (Q : σ → α → σ → Prop) : List α → σ → Prop
  | [], _ => True
  | a :: rest, s => ∀ t, step a s = some t → Q s a t ∧ EveryStep Q rest t

instance decidableEveryStep (Q : σ → α → σ → Prop) [∀ s a t, Decidable (Q s a t)] :
    ∀ (actions : List α) (s : σ), Decidable (EveryStep step Q actions s)
  | [], _ => isTrue trivial
  | a :: rest, s =>
    match h : step a s with
    | none => isTrue fun t ht => by simp [h] at ht
    | some t =>
      have := decidableEveryStep Q rest t
      decidable_of_iff (Q s a t ∧ EveryStep step Q rest t) <| by
        refine ⟨?_, ?_⟩
        · intro hq u hu
          obtain rfl := Option.some.inj (h.symm.trans hu)
          exact hq
        · exact fun hall => hall t h

variable {step}

@[simp] theorem run_nil (s : σ) : run step [] s = some s := rfl

theorem run_cons (a : α) (rest : List α) (s : σ) :
    run step (a :: rest) s = (step a s).bind (run step rest) := rfl

theorem run_append (first second : List α) (s : σ) :
    run step (first ++ second) s = (run step first s).bind (run step second) := by
  induction first generalizing s with
  | nil => rfl
  | cons a rest ih =>
    simp only [List.cons_append, run_cons]
    cases h : step a s with
    | none => rfl
    | some t => exact ih t

theorem Reachable.refl (s : σ) : Reachable step s s := ⟨[], rfl⟩

theorem Reachable.next {s t u : σ} {a : α} (h : Reachable step s t) (ht : step a t = some u) :
    Reachable step s u := by
  obtain ⟨actions, hrun⟩ := h
  refine ⟨actions ++ [a], ?_⟩
  rw [run_append, hrun]
  simp [run_cons, ht]

theorem Reachable.trans {s t u : σ} (h : Reachable step s t) (h' : Reachable step t u) : Reachable step s u := by
  obtain ⟨first, hfirst⟩ := h
  obtain ⟨rest, hrest⟩ := h'
  refine ⟨first ++ rest, ?_⟩
  rw [run_append, hfirst]
  exact hrest

/-- A machine inside another. -/
theorem Reachable.map {τ β : Type*} {step' : β → τ → Option τ} (f : σ → τ) (g : α → β)
    (hstep : ∀ a s t, step a s = some t → step' (g a) (f s) = some (f t)) {s t : σ} (h : Reachable step s t) :
    Reachable step' (f s) (f t) := by
  obtain ⟨actions, hrun⟩ := h
  induction actions generalizing s with
  | nil =>
    obtain rfl := Option.some.inj hrun
    exact .refl _
  | cons a rest ih =>
    obtain ⟨u, hu, hrest⟩ := Option.bind_eq_some_iff.mp hrun
    exact ((Reachable.refl _).next (hstep a s u hu)).trans (ih hrest)

/-- What can always be brought nearer can be reached. -/
theorem Reachable.of_measure {I P : σ → Prop} (measure : σ → Nat)
    (hnext : ∀ s, I s → P s ∨ ∃ t, Reachable step s t ∧ I t ∧ measure t < measure s) {s : σ} (hs : I s) :
    ∃ t, Reachable step s t ∧ I t ∧ P t := by
  induction hm : measure s using Nat.strong_induction_on generalizing s with
  | _ n ih =>
    rcases hnext s hs with hP | ⟨t, hreach, ht, hlt⟩
    · exact ⟨s, .refl s, hs, hP⟩
    · obtain ⟨u, hrest, hu, hP⟩ := ih (measure t) (hm ▸ hlt) ht rfl
      exact ⟨u, hreach.trans hrest, hu, hP⟩

/-! ### Invariants -/

/-- What every step preserves holds in every reachable state. -/
theorem Reachable.invariant {I : σ → Prop} {s t : σ} (h : Reachable step s t) (hs : I s)
    (preserved : ∀ a s t, I s → step a s = some t → I t) : I t := by
  obtain ⟨actions, hrun⟩ := h
  induction actions generalizing s with
  | nil =>
    obtain rfl : s = t := by simpa using hrun
    exact hs
  | cons a rest ih =>
    obtain ⟨u, hu, hrest⟩ := Option.bind_eq_some_iff.mp hrun
    exact ih (preserved a s u hs hu) hrest

/-- What every step preserves holds all along a run. -/
theorem Always.of_invariant {I : σ → Prop} {s : σ} (actions : List α) (hs : I s)
    (preserved : ∀ a s t, I s → step a s = some t → I t) : Always step I actions s := by
  induction actions generalizing s with
  | nil => exact hs
  | cons a rest ih => exact ⟨hs, fun t ht => ih (preserved a s t hs ht)⟩

theorem Always.mono {P Q : σ → Prop} (h : ∀ s, P s → Q s) {actions : List α} {s : σ}
    (hp : Always step P actions s) : Always step Q actions s := by
  induction actions generalizing s with
  | nil => exact h s hp
  | cons a rest ih => exact ⟨h s hp.1, fun t ht => ih (hp.2 t ht)⟩

/-- What no step can establish holds all along a run if it holds at its end. -/
theorem Always.of_last {N : σ → Prop} (back : ∀ a s t, step a s = some t → N t → N s)
    {actions : List α} {s t : σ} (hrun : run step actions s = some t) (hN : N t) :
    Always step N actions s := by
  induction actions generalizing s with
  | nil =>
    obtain rfl : s = t := by simpa using hrun
    exact hN
  | cons a rest ih =>
    obtain ⟨u, hu, hrest⟩ := Option.bind_eq_some_iff.mp hrun
    have hafter := ih hrest
    refine ⟨back a s u hu ?_, fun v hv => ?_⟩
    · cases rest with
      | nil => exact hafter
      | cons b rest => exact hafter.1
    · obtain rfl : u = v := Option.some.inj (hu.symm.trans hv)
      exact hafter

theorem Always.first {P : σ → Prop} {actions : List α} {s : σ}
    (h : Always step P actions s) : P s := by
  cases actions with
  | nil => exact h
  | cons a rest => exact h.1

theorem Always.last {P : σ → Prop} {actions : List α} {s t : σ}
    (h : Always step P actions s) (hrun : run step actions s = some t) : P t := by
  induction actions generalizing s with
  | nil =>
    obtain rfl : s = t := by simpa using hrun
    exact h
  | cons a rest ih =>
    obtain ⟨u, hu, hrest⟩ := Option.bind_eq_some_iff.mp hrun
    exact ih (h.2 u hu) hrest

theorem EveryStep.mono {Q R : σ → α → σ → Prop} (h : ∀ s a t, Q s a t → R s a t) {s : σ}
    {actions : List α} (hq : EveryStep step Q actions s) : EveryStep step R actions s := by
  induction actions generalizing s with
  | nil => exact trivial
  | cons a rest ih => exact fun t ht => ⟨h s a t (hq t ht).1, ih (hq t ht).2⟩

/-- The law of a step on the way. -/
theorem EveryStep.step_at {Q : σ → α → σ → Prop} {first rest : List α} {a : α} {s t u : σ}
    (h : EveryStep step Q (first ++ a :: rest) s) (hrun : run step first s = some t) (ht : step a t = some u) :
    Q t a u := by
  induction first generalizing s with
  | nil =>
    obtain rfl : s = t := by simpa using hrun
    exact (h u ht).1
  | cons b first ih =>
    obtain ⟨v, hv, hrest⟩ := Option.bind_eq_some_iff.mp hrun
    exact ih (h v hv).2 hrest

/-- A step law that holds wherever an invariant does holds of every step. -/
theorem EveryStep.of_invariant {I : σ → Prop} {Q : σ → α → σ → Prop} {s : σ} (actions : List α)
    (hs : I s) (preserved : ∀ a s t, I s → step a s = some t → I t)
    (law : ∀ a s t, I s → step a s = some t → Q s a t) : EveryStep step Q actions s := by
  induction actions generalizing s with
  | nil => exact trivial
  | cons a rest ih => exact fun t ht => ⟨law a s t hs ht, ih (preserved a s t hs ht)⟩

/-! ### Runs whose steps all meet a condition -/

/-- An invariant that only steps meeting `C` preserve, along a run all of whose
steps meet `C`, with the law such steps then obey. -/
theorem EveryStep.of_guarded {I : σ → Prop} {C Q : σ → α → σ → Prop} {s : σ} {actions : List α}
    (hs : I s) (hC : EveryStep step C actions s)
    (preserved : ∀ a s t, I s → step a s = some t → C s a t → I t)
    (law : ∀ a s t, I s → step a s = some t → C s a t → Q s a t) : EveryStep step Q actions s := by
  induction actions generalizing s with
  | nil => exact trivial
  | cons a rest ih =>
    intro t ht
    obtain ⟨hc, hrest⟩ := hC t ht
    exact ⟨law a s t hs ht hc, ih (preserved a s t hs ht hc) hrest⟩

/-- What holds at first and after every step holds all along the run. -/
theorem EveryStep.always {P : σ → Prop} {s : σ} {actions : List α} (hs : P s)
    (h : EveryStep step (fun _ _ t => P t) actions s) : Always step P actions s := by
  induction actions generalizing s with
  | nil => exact hs
  | cons a rest ih => exact ⟨hs, fun t ht => ih (h t ht).1 (h t ht).2⟩

/-- `P` holds all along a run exactly when every step meets `C`, provided `C` decides
at each step whether `P` survives it. `I` is an invariant the decision may use and
`N` an assumption on the states of the run. -/
theorem always_iff_everyStep {I N P : σ → Prop} {C : σ → α → σ → Prop} {s : σ} {actions : List α}
    (hI : I s) (hP : P s) (hN : Always step N actions s)
    (preserved : ∀ a s t, I s → step a s = some t → I t)
    (decides : ∀ a s t, I s → I t → N t → P s → step a s = some t → (P t ↔ C s a t)) :
    Always step P actions s ↔ EveryStep step C actions s := by
  induction actions generalizing s with
  | nil => exact ⟨fun _ => trivial, fun _ => hP⟩
  | cons a rest ih =>
    have next : ∀ t, step a s = some t → (P t ↔ C s a t) := fun t ht =>
      decides a s t hI (preserved a s t hI ht) (hN.2 t ht).first hP ht
    refine ⟨?_, ?_⟩
    · intro h t ht
      have hPt : P t := (h.2 t ht).first
      exact ⟨(next t ht).mp hPt,
        (ih (preserved a s t hI ht) hPt (hN.2 t ht)).mp (h.2 t ht)⟩
    · intro h
      refine ⟨hP, fun t ht => ?_⟩
      obtain ⟨hc, hrest⟩ := h t ht
      exact (ih (preserved a s t hI ht) ((next t ht).mpr hc) (hN.2 t ht)).mpr hrest

/-- The same where `P` says too little of a state to decide the next step: `S`, which says
more, survives each step that meets `C`, and `P` no other. -/
theorem always_iff_everyStep_of_stronger {I P S : σ → Prop} {C : σ → α → σ → Prop} {s : σ} {actions : List α}
    (hI : I s) (hS : S s) (weaken : ∀ s, S s → P s)
    (preserved : ∀ a s t, I s → step a s = some t → I t)
    (necessary : ∀ a s t, I s → S s → step a s = some t → P t → C s a t)
    (kept : ∀ a s t, I s → S s → step a s = some t → C s a t → S t) :
    Always step P actions s ↔ EveryStep step C actions s := by
  induction actions generalizing s with
  | nil => exact ⟨fun _ => trivial, fun _ => weaken s hS⟩
  | cons a rest ih =>
    refine ⟨?_, ?_⟩
    · intro h t ht
      have hc : C s a t := necessary a s t hI hS ht (h.2 t ht).first
      exact ⟨hc, (ih (preserved a s t hI ht) (kept a s t hI hS ht hc)).mp (h.2 t ht)⟩
    · intro h
      refine ⟨weaken s hS, fun t ht => ?_⟩
      obtain ⟨hc, hrest⟩ := h t ht
      exact (ih (preserved a s t hI ht) (kept a s t hI hS ht hc)).mpr hrest

end Sentinel.Library.Transition
