import Sentinel.Library.Fallible

/-! Operations of several owners on one state, of which each owner sees a part.

When an operation leaves what the other owners see alone (`respects`) and depends on
nothing but what its own owner sees (`consistent`), the operations of the others can be
taken out of a run: an owner's answers and view stay the same (`Separated.purge`). An
operation brings things of its own, ids for one, which must be new to the state it meets
(`fresh`).

What a function does to a part of a state, its own writes aside, is `Confined`. -/
namespace Sentinel.Library.Unwinding

variable {ο ω σ ρ ν : Type*}

/-- The answer to each operation, and the state after the last. -/
def run (step : ω → σ → ρ × σ) : List ω → σ → List (ω × ρ) × σ
  | [], s => ([], s)
  | a :: rest, s => ((a, (step a s).1) :: (run step rest (step a s).2).1, (run step rest (step a s).2).2)

/-- What the owner's operations bring is new when they run. -/
def Supplied (step : ω → σ → ρ × σ) (owner : ω → ο) (fresh : ω → σ → Prop) (o : ο) : List ω → σ → Prop
  | [], _ => True
  | a :: rest, s => (owner a = o → fresh a s) ∧ Supplied step owner fresh o rest (step a s).2

/-- What keeps the owners apart. -/
structure Separated (step : ω → σ → ρ × σ) (owner : ω → ο) (view : ο → σ → ν) (fresh : ω → σ → Prop) : Prop where
  respects : ∀ a s o, owner a ≠ o → view o (step a s).2 = view o s
  consistent : ∀ a s t, view (owner a) s = view (owner a) t → fresh a s → fresh a t →
    (step a s).1 = (step a t).1 ∧ view (owner a) (step a s).2 = view (owner a) (step a t).2
  /-- What is new after an operation was new before. -/
  before : ∀ a b s, fresh a (step b s).2 → fresh a s
  /-- What is new to an owner stays so through the owner's operations. -/
  after : ∀ a b s, owner b = owner a → fresh a s → fresh a (step b s).2

variable {step : ω → σ → ρ × σ} {owner : ω → ο} {view : ο → σ → ν} {fresh : ω → σ → Prop} {o : ο}

/-- Owners are kept apart by operations that run on the owner's part of a state as they do on
the whole of it, and write to no other part. -/
theorem Separated.of_parts {part : ο → σ → σ} {written : ο → σ → σ → Prop}
    (hpart : ∀ a s, fresh a s → step a (part (owner a) s) = ((step a s).1, part (owner a) (step a s).2))
    (hwritten : ∀ a s, written (owner a) s (step a s).2)
    (hothers : ∀ {o p s t}, written o s t → p ≠ o → part p t = part p s)
    (hbefore : ∀ {a o s t}, written o s t → fresh a t → fresh a s)
    (hafter : ∀ {a s t}, written (owner a) s t → fresh a s → fresh a t) :
    Separated step owner part fresh where
  respects := fun a s _ hne => hothers (hwritten a s) hne.symm
  consistent := by
    intro a s t hview hs ht
    have heq : ((step a s).1, part (owner a) (step a s).2) = ((step a t).1, part (owner a) (step a t).2) := by
      rw [← hpart a s hs, ← hpart a t ht, hview]
    exact Prod.mk.inj heq
  before := fun _ b s => hbefore (hwritten b s)
  after := fun a b s howner => hafter (howner ▸ hwritten b s)

/-- Two states in which an owner may be served alike. -/
structure Alike (owner : ω → ο) (view : ο → σ → ν) (fresh : ω → σ → Prop) (o : ο) (s t : σ) : Prop where
  view : view o s = view o t
  fresh : ∀ a, owner a = o → fresh a s → fresh a t

theorem Alike.refl (s : σ) : Alike owner view fresh o s s := ⟨rfl, fun _ _ h => h⟩

/-- Another owner's operation, on the left. -/
theorem Separated.skip (h : Separated step owner view fresh) {a : ω} {s t : σ} (ha : owner a ≠ o)
    (hst : Alike owner view fresh o s t) : Alike owner view fresh o (step a s).2 t := by
  refine ⟨?_, ?_⟩
  · rw [h.respects a s o ha]
    exact hst.view
  · intro b hb hfresh
    exact hst.fresh b hb (h.before b a s hfresh)

/-- The owner's operation, on both sides. -/
theorem Separated.both (h : Separated step owner view fresh) {a : ω} {s t : σ} (ha : owner a = o)
    (hs : fresh a s) (hst : Alike owner view fresh o s t) :
    (step a s).1 = (step a t).1 ∧ Alike owner view fresh o (step a s).2 (step a t).2 := by
  subst ha
  obtain ⟨hanswer, hview⟩ := h.consistent a s t hst.view hs (hst.fresh a rfl hs)
  refine ⟨hanswer, hview, fun b hb hfresh => ?_⟩
  exact h.after b a t hb.symm (hst.fresh b hb (h.before b a s hfresh))

variable [DecidableEq ο]

/-- The operations of one owner, the others taken out. -/
def purge (owner : ω → ο) (o : ο) (ops : List ω) : List ω := ops.filter fun a => owner a = o

/-- The answers one owner was given. -/
def answersTo (owner : ω → ο) (o : ο) (answers : List (ω × ρ)) : List (ω × ρ) :=
  answers.filter fun p => owner p.1 = o

/-- The operations of the others can be taken out of a run. -/
theorem Separated.purge (h : Separated step owner view fresh) {ops : List ω} {s t : σ}
    (hsupplied : Supplied step owner fresh o ops s) (hst : Alike owner view fresh o s t) :
    answersTo owner o (run step ops s).1 = (run step (Unwinding.purge owner o ops) t).1 ∧
      view o (run step ops s).2 = view o (run step (Unwinding.purge owner o ops) t).2 := by
  induction ops generalizing s t with
  | nil => exact ⟨rfl, hst.view⟩
  | cons a rest ih =>
    by_cases ha : owner a = o
    · obtain ⟨hanswer, hnext⟩ := h.both ha (hsupplied.1 ha) hst
      obtain ⟨hanswers, hview⟩ := ih hsupplied.2 hnext
      have hpurge : Unwinding.purge owner o (a :: rest) = a :: Unwinding.purge owner o rest := by
        simp [Unwinding.purge, ha]
      rw [hpurge]
      refine ⟨?_, hview⟩
      simp only [run, answersTo, List.filter_cons, ha, decide_true, if_true] at hanswers ⊢
      rw [hanswers, hanswer]
    · obtain ⟨hanswers, hview⟩ := ih hsupplied.2 (h.skip ha hst)
      have hpurge : Unwinding.purge owner o (a :: rest) = Unwinding.purge owner o rest := by
        simp [Unwinding.purge, ha]
      rw [hpurge]
      refine ⟨?_, hview⟩
      simpa [run, answersTo, ha] using hanswers

/-! ### Functions on a part of the state -/

section Confined
variable {ε α β : Type*} {part : σ → σ} {written : σ → σ → Prop} {new : σ → Prop}

/-- In `s` the function depends on a part of the state alone, if what it brings is new there,
and what it does is `written`. -/
structure Confined (part : σ → σ) (written : σ → σ → Prop) (new : σ → Prop) (f : σ → Except ε (α × σ)) (s : σ) :
    Prop where
  of : new s → f (part s) = (f s).map fun p => (p.1, part p.2)
  written : ∀ a t, f s = .ok (a, t) → written s t

theorem Confined.pure {s : σ} (hrefl : written s s) (a : α) :
    Confined part written new (fun s => (.ok (a, s) : Except ε (α × σ))) s := by
  refine ⟨?_, ?_⟩
  · exact fun _ => rfl
  · intro b t h
    cases h
    exact hrefl

theorem Confined.bind {f : σ → Except ε (α × σ)} {g : α → σ → Except ε (β × σ)} {s : σ}
    (htrans : ∀ {s t u}, written s t → written t u → written s u) (hnew : ∀ {s t}, written s t → new s → new t)
    (hf : Confined part written new f s) (hg : ∀ a t, written s t → Confined part written new (g a) t) :
    Confined part written new (fun s => (f s).bind fun p => g p.1 p.2) s := by
  refine ⟨?_, ?_⟩
  · intro hs
    show (f (part s)).bind _ = _
    rw [hf.of hs]
    cases hfs : f s with
    | error e => rfl
    | ok p =>
      have hst : written s p.2 := hf.written p.1 p.2 hfs
      exact (hg p.1 p.2 hst).of (hnew hst hs)
  · intro b u h
    cases hfs : f s with
    | error e =>
      rw [hfs] at h
      cases h
    | ok p =>
      rw [hfs] at h
      have hst : written s p.2 := hf.written p.1 p.2 hfs
      exact htrans hst ((hg p.1 p.2 hst).written b u h)

theorem Confined.mono {new' : σ → Prop} {f : σ → Except ε (α × σ)} {s : σ} (h : Confined part written new f s)
    (hnew : new' s → new s) : Confined part written new' f s :=
  ⟨fun hs => h.of (hnew hs), h.written⟩

/-- As a transaction of its own. -/
theorem Confined.transaction_of {f : σ → Except ε (α × σ)} {s : σ} (h : Confined part written new f s) (hs : new s) :
    Fallible.transaction (f (part s)) (part s) =
      ((Fallible.transaction (f s) s).1, part (Fallible.transaction (f s) s).2) := by
  rw [h.of hs]
  cases f s with
  | error e => rfl
  | ok p => rfl

theorem Confined.transaction_written {f : σ → Except ε (α × σ)} {s : σ} (h : Confined part written new f s)
    (hrefl : written s s) : written s (Fallible.transaction (f s) s).2 :=
  Fallible.transaction_state hrefl h.written

end Confined
end Sentinel.Library.Unwinding
