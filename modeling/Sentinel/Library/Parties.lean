import Mathlib

/-! Parties that share a state, each of which may hold something no other holds.

`Holds I L held` says `I` of the shared state, `L` of it with each party, and that nothing
is held twice. A party that moves keeps it if it takes only what is free and leaves every
`L` of a party that holds something else standing (`Holds.move`). -/
namespace Sentinel.Library.Parties

variable {σ ℓ κ : Type*}

structure Holds (I : σ → Prop) (L : σ → ℓ → Prop) (held : ℓ → Option κ) (s : σ) (parties : List ℓ) : Prop where
  shared : I s
  fits : ∀ (w : Nat) (x : ℓ), parties[w]? = some x → L s x
  exclusive : ∀ (v w : Nat) (x y : ℓ) (k : κ), parties[v]? = some x → parties[w]? = some y →
    held x = some k → held y = some k → v = w

variable {I : σ → Prop} {L : σ → ℓ → Prop} {held : ℓ → Option κ} {s s' : σ} {parties : List ℓ}

theorem holds_nil (h : I s) : Holds I L held s [] :=
  ⟨h, fun _ _ hx => by simp at hx, fun _ _ _ _ _ hx => by simp at hx⟩

/-- Who a party of the longer list is. -/
theorem getElem?_join {l x : ℓ} {w : Nat} (h : (parties ++ [l])[w]? = some x) :
    parties[w]? = some x ∨ x = l := by
  rw [List.getElem?_append] at h
  split_ifs at h
  · exact .inl h
  · exact .inr (List.mem_singleton.mp (List.mem_of_getElem? h))

theorem getElem?_move {l l' : ℓ} {w : Nat} (hw : parties[w]? = some l) (v : Nat) :
    (parties.set w l')[v]? = if w = v then some l' else parties[v]? := by
  have hlt : w < parties.length := (List.getElem?_eq_some_iff.mp hw).1
  rw [List.getElem?_set]
  split_ifs with h
  · rfl
  · rfl

/-- A party that holds nothing joins. -/
theorem Holds.join (h : Holds I L held s parties) {l : ℓ} (hl : L s l) (hfree : held l = none) :
    Holds I L held s (parties ++ [l]) where
  shared := h.shared
  fits := by
    intro w x hx
    rcases getElem?_join hx with hx | rfl
    · exact h.fits w x hx
    · exact hl
  exclusive := by
    intro v w x y k hx hy hxk hyk
    rcases getElem?_join hx with hx | rfl
    · rcases getElem?_join hy with hy | rfl
      · exact h.exclusive v w x y k hx hy hxk hyk
      · cases hfree.symm.trans hyk
    · cases hfree.symm.trans hxk

/-- The shared state changes under all of them. -/
theorem Holds.change (h : Holds I L held s parties) (hI : I s') (hL : ∀ x, L s x → L s' x) :
    Holds I L held s' parties :=
  ⟨hI, fun w x hx => hL x (h.fits w x hx), h.exclusive⟩

/-- A party moves. -/
theorem Holds.move (h : Holds I L held s parties) {w : Nat} {l l' : ℓ} (hw : parties[w]? = some l)
    (hI : I s') (hl : L s' l') (hothers : ∀ x, (∀ k, held l = some k → held x ≠ some k) → L s x → L s' x)
    (htake : ∀ k, held l' = some k → held l = some k ∨ ∀ x ∈ parties, held x ≠ some k) :
    Holds I L held s' (parties.set w l') where
  shared := hI
  fits := by
    intro v x hx
    rw [getElem?_move hw] at hx
    split_ifs at hx with hwv
    · obtain rfl := Option.some.inj hx
      exact hl
    · refine hothers x (fun k hlk hxk => ?_) (h.fits v x hx)
      exact hwv (h.exclusive w v l x k hw hx hlk hxk)
  exclusive := by
    -- What the party holds now it held before, or nobody did.
    have hnew : ∀ (v : Nat) (x : ℓ) (k : κ), parties[v]? = some x → held l' = some k → held x = some k →
        w = v := by
      intro v x k hx hk hxk
      rcases htake k hk with hlk | hfree
      · exact h.exclusive w v l x k hw hx hlk hxk
      · exact absurd hxk (hfree x (List.mem_of_getElem? hx))
    intro u v x y k hx hy hxk hyk
    rw [getElem?_move hw] at hx hy
    split_ifs at hx hy with hwu hwv hwv
    · omega
    · obtain rfl := Option.some.inj hx
      exact absurd (hnew v y k hy hxk hyk) hwv
    · obtain rfl := Option.some.inj hy
      exact absurd (hnew u x k hx hyk hxk) hwu
    · exact h.exclusive u v x y k hx hy hxk hyk

end Sentinel.Library.Parties
