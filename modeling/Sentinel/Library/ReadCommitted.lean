import Sentinel.Library.Transition

/-! Transactions that interleave at READ COMMITTED.

A transaction takes one statement after the other. A statement sees what is committed when
it runs; what the transaction writes shows to others only when it commits, and a constraint
or its own checks may then refuse the commit. Waiting for a row lock is not a step: a
transaction that waits is one that others overtake. Calls to other services are statements
too, and a clock counts the steps, so that such calls have an order.

`Holds I L` says `I` of the committed state and `L` of it with each open transaction; it is
kept by a protocol whose commits keep `I` and leave every `L` standing (`holds_step`). -/
namespace Sentinel.Library.ReadCommitted

/-- What transactions do: `σ` is the committed state, `τ` a transaction on its way, `ρ` what
it starts from and `α` what reaches it from outside at a statement. -/
structure Protocol (σ τ ρ α : Type*) where
  begin : Nat → ρ → τ
  statement : Nat → α → σ → τ → Option τ
  commit : σ → τ → Option σ

structure System (σ τ : Type*) where
  committed : σ
  running : Nat → Option τ
  clock : Nat

inductive Action (ρ α : Type*) where
  | begin (i : Nat) (r : ρ)
  | statement (i : Nat) (a : α)
  | commit (i : Nat)
  /-- The transaction fails, or the process that runs it stops. -/
  | abort (i : Nat)

variable {σ τ ρ α : Type*}

/-- The system before any transaction. -/
def System.idle (s : σ) : System σ τ := ⟨s, fun _ => none, 0⟩

/-- The transaction `i` stands at `t`, or is over. -/
def System.set (s : System σ τ) (i : Nat) (t : Option τ) : System σ τ :=
  {s with running := Function.update s.running i t, clock := s.clock + 1}

def Protocol.step (p : Protocol σ τ ρ α) (action : Action ρ α) (s : System σ τ) : Option (System σ τ) :=
  match action with
  | .begin i r =>
    match s.running i with
    | none => some (s.set i (some (p.begin s.clock r)))
    | some _ => none
  | .statement i a =>
    match s.running i with
    | none => none
    | some t => (p.statement s.clock a s.committed t).map fun t => s.set i (some t)
  | .commit i =>
    match s.running i with
    | none => none
    | some t => (p.commit s.committed t).map fun c => {s.set i none with committed := c}
  | .abort i =>
    match s.running i with
    | none => none
    | some _ => some (s.set i none)

/-- What a step can be. -/
inductive Protocol.Step (p : Protocol σ τ ρ α) : Action ρ α → System σ τ → System σ τ → Prop
  | begin {s : System σ τ} {i : Nat} {r : ρ} : s.running i = none →
      p.Step (.begin i r) s (s.set i (some (p.begin s.clock r)))
  | statement {s : System σ τ} {i : Nat} {a : α} {t t' : τ} : s.running i = some t →
      p.statement s.clock a s.committed t = some t' → p.Step (.statement i a) s (s.set i (some t'))
  | commit {s : System σ τ} {i : Nat} {t : τ} {c : σ} : s.running i = some t →
      p.commit s.committed t = some c → p.Step (.commit i) s {s.set i none with committed := c}
  | abort {s : System σ τ} {i : Nat} {t : τ} : s.running i = some t → p.Step (.abort i) s (s.set i none)

theorem Protocol.step_cases {p : Protocol σ τ ρ α} {action : Action ρ α} {s s' : System σ τ}
    (h : p.step action s = some s') : p.Step action s s' := by
  cases action with
  | begin i r =>
    cases hi : s.running i with
    | none =>
      simp only [step, hi, Option.some.injEq] at h
      subst h
      exact .begin hi
    | some t => simp [step, hi] at h
  | statement i a =>
    cases hi : s.running i with
    | none => simp [step, hi] at h
    | some t =>
      simp only [step, hi, Option.map_eq_some_iff] at h
      obtain ⟨t', ht, rfl⟩ := h
      exact .statement hi ht
  | commit i =>
    cases hi : s.running i with
    | none => simp [step, hi] at h
    | some t =>
      simp only [step, hi, Option.map_eq_some_iff] at h
      obtain ⟨c, hc, rfl⟩ := h
      exact .commit hi hc
  | abort i =>
    cases hi : s.running i with
    | none => simp [step, hi] at h
    | some t =>
      simp only [step, hi, Option.some.injEq] at h
      subst h
      exact .abort hi

theorem System.set_running (s : System σ τ) (i j : Nat) (t : Option τ) :
    (s.set i t).running j = if j = i then t else s.running j := by
  simp [set, Function.update_apply]

/-- The transaction an action is of. -/
def Action.index : Action ρ α → Nat
  | .begin i _ => i
  | .statement i _ => i
  | .commit i => i
  | .abort i => i

/-- An action leaves the other transactions where they are. -/
theorem Protocol.step_running {p : Protocol σ τ ρ α} {action : Action ρ α} {s s' : System σ τ}
    (h : p.step action s = some s') {j : Nat} (hj : j ≠ action.index) : s'.running j = s.running j := by
  cases step_cases h with
  | begin | statement | commit | abort => exact (System.set_running s _ j _).trans (if_neg hj)

/-- No transaction is on its way. -/
def Quiescent (s : System σ τ) : Prop := ∀ i, s.running i = none

theorem quiescent_of_run {p : Protocol σ τ ρ α} {actions : List (Action ρ α)} {s s' : System σ τ} {n : Nat}
    (hrun : Transition.run p.step actions s = some s') (hidle : Quiescent s)
    (hn : ∀ a ∈ actions, a.index < n) (hover : ∀ i < n, s'.running i = none) : Quiescent s' := by
  have hkept : ∀ j, n ≤ j → s'.running j = none := by
    intro j hj
    replace hidle := hidle j
    induction actions generalizing s with
    | nil =>
      obtain rfl : s = s' := by simpa using hrun
      exact hidle
    | cons a rest ih =>
      obtain ⟨t, ht, hrest⟩ := Option.bind_eq_some_iff.mp hrun
      have ha : a.index < n := hn a (List.mem_cons_self ..)
      refine ih hrest (fun b hb => hn b (List.mem_cons_of_mem a hb)) ?_
      rw [Protocol.step_running ht (by omega)]
      exact hidle
  intro i
  by_cases hi : i < n
  · exact hover i hi
  · exact hkept i (by omega)

/-! ### Invariants -/

/-- `I` holds of the committed state, and `L` of the clock, of it and of every transaction. -/
structure Holds (I : σ → Prop) (L : Nat → σ → τ → Prop) (s : System σ τ) : Prop where
  committed : I s.committed
  running : ∀ i t, s.running i = some t → L s.clock s.committed t

theorem holds_idle {I : σ → Prop} {L : Nat → σ → τ → Prop} {s : σ} (h : I s) :
    Holds I L (System.idle (τ := τ) s) :=
  ⟨h, fun _ _ ht => nomatch ht⟩

/-- What a protocol owes: its commits keep `I` and leave the `L` of the others standing. -/
structure Keeps (p : Protocol σ τ ρ α) (I : σ → Prop) (L : Nat → σ → τ → Prop) : Prop where
  later : ∀ n s t, L n s t → L (n + 1) s t
  begin : ∀ n s r, I s → L (n + 1) s (p.begin n r)
  statement : ∀ n a s t t', I s → L n s t → p.statement n a s t = some t' → L (n + 1) s t'
  commit : ∀ n s t s', I s → L n s t → p.commit s t = some s' → I s'
  others : ∀ n s t s' t', I s → L n s t → p.commit s t = some s' → L n s t' → L n s' t'

/-- Two invariants side by side. -/
theorem Keeps.and {p : Protocol σ τ ρ α} {I I' : σ → Prop} {L L' : Nat → σ → τ → Prop} (h : Keeps p I L)
    (h' : Keeps p I' L') : Keeps p (fun s => I s ∧ I' s) (fun n s t => L n s t ∧ L' n s t) where
  later := fun n s t hL => ⟨h.later n s t hL.1, h'.later n s t hL.2⟩
  begin := fun n s r hI => ⟨h.begin n s r hI.1, h'.begin n s r hI.2⟩
  statement := fun n a s t t' hI hL hs => ⟨h.statement n a s t t' hI.1 hL.1 hs, h'.statement n a s t t' hI.2 hL.2 hs⟩
  commit := fun n s t s' hI hL hc => ⟨h.commit n s t s' hI.1 hL.1 hc, h'.commit n s t s' hI.2 hL.2 hc⟩
  others := fun n s t s' t' hI hL hc hL' =>
    ⟨h.others n s t s' t' hI.1 hL.1 hc hL'.1, h'.others n s t s' t' hI.2 hL.2 hc hL'.2⟩

theorem holds_set {I : σ → Prop} {L : Nat → σ → τ → Prop} (hlater : ∀ n s t, L n s t → L (n + 1) s t)
    {s : System σ τ} (h : Holds I L s) {i : Nat} {t : Option τ}
    (ht : ∀ u, t = some u → L (s.clock + 1) s.committed u) : Holds I L (s.set i t) := by
  refine ⟨h.committed, fun j u hu => ?_⟩
  rw [System.set_running] at hu
  split_ifs at hu with hji
  · exact ht u hu
  · exact hlater _ _ _ (h.running j u hu)

theorem holds_step {p : Protocol σ τ ρ α} {I : σ → Prop} {L : Nat → σ → τ → Prop} (hp : Keeps p I L)
    {action : Action ρ α} {s s' : System σ τ} (h : Holds I L s) (hstep : p.step action s = some s') :
    Holds I L s' := by
  cases Protocol.step_cases hstep with
  | begin hi =>
    refine holds_set hp.later h fun u hu => ?_
    cases hu
    exact hp.begin _ _ _ h.committed
  | statement hi ht =>
    refine holds_set hp.later h fun u hu => ?_
    cases hu
    exact hp.statement _ _ _ _ _ h.committed (h.running _ _ hi) ht
  | commit hi hc =>
    have hL := h.running _ _ hi
    refine ⟨hp.commit _ _ _ _ h.committed hL hc, fun j u hu => ?_⟩
    change (s.set _ none).running j = some u at hu
    rw [System.set_running] at hu
    split_ifs at hu
    exact hp.later _ _ _ (hp.others _ _ _ _ _ h.committed hL hc (h.running j u hu))
  | abort hi => exact holds_set hp.later h fun u hu => nomatch hu

end Sentinel.Library.ReadCommitted
