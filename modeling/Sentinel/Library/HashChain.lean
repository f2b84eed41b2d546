import Mathlib

/-! Hash chains: rows that each name the digest of the row before them.

Nothing here knows how a digest is computed. What a digest *binds* is a
hypothesis: rows with equal digests name the same predecessor (`Binding`), or
agree on more than that. From it a chain has no two equal digests (`nodup_digest`),
so no fork, and the digest of its last row determines all of it
(`forall₂_of_tip_eq`). -/
namespace Sentinel.Library.HashChain

variable {ρ η : Type*} (previous : ρ → Option η) (digest : ρ → η)

/-- The rows, oldest first: the first names `start`, each later one the digest of
the row before it. -/
def Linked : Option η → List ρ → Prop
  | _, [] => True
  | start, r :: rest => previous r = start ∧ Linked (some (digest r)) rest

/-- What the next row of the chain has to name. -/
def tip : Option η → List ρ → Option η
  | start, [] => start
  | _, r :: rest => tip (some (digest r)) rest

/-- Rows with equal digests name the same predecessor. -/
def Binding (rows : List ρ) : Prop :=
  ∀ r ∈ rows, ∀ r' ∈ rows, digest r = digest r' → previous r = previous r'

/-- Some order of the rows is a chain from its first row on. -/
def Chainable (rows : List ρ) : Prop := ∃ chain, chain.Perm rows ∧ Linked previous digest none chain

/-- A row that can follow `rows`: it names one of them, or none when there is none. -/
def Extends (rows : List ρ) (r : ρ) : Prop :=
  rows = [] ∧ previous r = none ∨ ∃ p ∈ rows, previous r = some (digest p)

/-- Every row, when it came, extended the rows before it. -/
def Grown (rows : List ρ) : Prop :=
  ∀ init r rest, rows = init ++ r :: rest → Extends previous digest init r

variable {previous digest}

theorem tip_append (start : Option η) (l : List ρ) (r : ρ) :
    tip digest start (l ++ [r]) = some (digest r) := by
  induction l generalizing start with
  | nil => rfl
  | cons x rest ih => exact ih _

variable (digest) in
theorem tip_append_cons (start : Option η) (l rest : List ρ) (r : ρ) :
    ∃ last ∈ r :: rest, tip digest start (l ++ r :: rest) = some (digest last) := by
  rcases List.eq_nil_or_concat rest with rfl | ⟨init, last, rfl⟩
  · exact ⟨r, by simp, tip_append start l r⟩
  · refine ⟨last, by simp, ?_⟩
    have h : tip digest start (l ++ r :: init ++ [last]) = _ := tip_append start _ last
    simpa using h

theorem tip_eq_getLast? (l : List ρ) : tip digest none l = l.getLast?.map digest := by
  rcases List.eq_nil_or_concat l with rfl | ⟨init, last, rfl⟩
  · rfl
  · rw [List.concat_eq_append, tip_append]
    simp

theorem linked_append (start : Option η) (l rest : List ρ) :
    Linked previous digest start (l ++ rest) ↔
      Linked previous digest start l ∧ Linked previous digest (tip digest start l) rest := by
  induction l generalizing start with
  | nil => simp [Linked, tip]
  | cons r l ih => simp only [List.cons_append, Linked, tip, ih, and_assoc]

theorem linked_snoc (start : Option η) (l : List ρ) (r : ρ) :
    Linked previous digest start (l ++ [r]) ↔
      Linked previous digest start l ∧ previous r = tip digest start l := by
  rw [linked_append]
  simp [Linked]

/-- A row in the middle of a chain already has a successor. -/
theorem Linked.successor {l : List ρ} (h : Linked previous digest none l) {p : ρ} (hp : p ∈ l)
    (hlast : l.getLast? ≠ some p) : ∃ q ∈ l, previous q = some (digest p) := by
  obtain ⟨before, after, rfl⟩ := List.append_of_mem hp
  cases after with
  | nil => simp at hlast
  | cons q rest =>
    have h' := (linked_append none before (p :: q :: rest)).mp h
    exact ⟨q, by simp, h'.2.2.1⟩

theorem grown_snoc {l : List ρ} {r : ρ} :
    Grown previous digest (l ++ [r]) ↔ Grown previous digest l ∧ Extends previous digest l r := by
  refine ⟨?_, ?_⟩
  · intro h
    refine ⟨fun init q rest heq => h init q (rest ++ [r]) (by simp [heq]), h l r [] rfl⟩
  · rintro ⟨hl, hr⟩ init q rest heq
    rcases List.eq_nil_or_concat rest with rfl | ⟨rest', q', rfl⟩
    · obtain ⟨rfl, hq⟩ := List.append_inj' heq rfl
      rwa [← List.singleton_inj.mp hq]
    · rw [List.concat_eq_append, ← List.cons_append, ← List.append_assoc] at heq
      exact hl init q rest' (List.append_inj' heq rfl).1

/-- **Growth without forks is a chain**: rows that each extended the rows before them, no
two of them the same row, stand in the order of a chain. -/
theorem linked_of_grown {l : List ρ} (h : Grown previous digest l) (hn : (l.map previous).Nodup) :
    Linked previous digest none l := by
  induction l using List.reverseRecOn with
  | nil => exact trivial
  | append_singleton l r ih =>
    obtain ⟨hl, hr⟩ := grown_snoc.mp h
    rw [List.map_append, List.map_singleton, ← List.concat_eq_append, List.nodup_concat] at hn
    have hlinked := ih hl hn.2
    refine (linked_snoc none l r).mpr ⟨hlinked, ?_⟩
    rw [tip_eq_getLast?]
    rcases hr with ⟨rfl, hnone⟩ | ⟨p, hp, hprev⟩
    · simpa using hnone
    · -- A row that names another one than the last forks off its successor.
      by_cases hlast : l.getLast? = some p
      · rw [hprev, hlast, Option.map_some]
      · obtain ⟨q, hq, hqp⟩ := hlinked.successor hp hlast
        exact absurd (List.mem_map.mpr ⟨q, hq, hqp.trans hprev.symm⟩) hn.1

/-- A chain whose digests bind the predecessor repeats no digest. -/
theorem Linked.nodup_digest {l : List ρ} (h : Linked previous digest none l)
    (hb : Binding previous digest l) : (l.map digest).Nodup := by
  -- Induction from the newest row: if it repeats an older digest, the rows before
  -- the two have equal digests as well, one step closer to the first row.
  induction l using List.reverseRecOn with
  | nil => simp
  | append_singleton l r ih =>
    obtain ⟨hl, hr⟩ := (linked_snoc none l r).mp h
    have hnodup := ih hl (fun x hx y hy => hb x (by simp [hx]) y (by simp [hy]))
    rw [List.map_append, List.map_singleton, ← List.concat_eq_append, List.nodup_concat]
    refine ⟨?_, hnodup⟩
    intro hmem
    obtain ⟨r', hr', heq⟩ := List.mem_map.mp hmem
    have hprev : previous r' = previous r := hb r' (by simp [hr']) r (by simp) heq
    obtain ⟨before, after, rfl⟩ := List.append_of_mem hr'
    obtain ⟨y, hy, htip⟩ := tip_append_cons digest none before after r'
    have hprev' : previous r' = tip digest none before :=
      ((linked_append none before (r' :: after)).mp hl).2.1
    have hpair : tip digest none before = some (digest y) := by
      rw [← hprev', hprev, hr, htip]
    rcases List.eq_nil_or_concat before with rfl | ⟨init, x, rfl⟩
    · simp [tip] at hpair
    · rw [List.concat_eq_append] at hpair hnodup
      rw [tip_append, Option.some.injEq] at hpair
      rw [List.map_append, List.nodup_append] at hnodup
      exact hnodup.2.2 (digest x) (by simp) (digest y) (List.mem_map_of_mem hy) hpair

/-- No two rows of such a chain name the same predecessor, and only one names none. -/
theorem Linked.nodup_previous {l : List ρ} (h : Linked previous digest none l)
    (hb : Binding previous digest l) : (l.map previous).Nodup := by
  have shift : ∀ (start : Option η) (l : List ρ), Linked previous digest start l →
      l.map previous = (start :: l.map (some ∘ digest)).take l.length := by
    intro start l hl
    induction l generalizing start with
    | nil => simp
    | cons r rest ih =>
      simp only [List.map_cons, List.length_cons, List.take_succ_cons, hl.1]
      exact congrArg _ (ih _ hl.2)
  rw [shift none l h]
  apply List.Nodup.sublist (List.take_sublist _ _)
  rw [List.nodup_cons, ← List.map_map]
  exact ⟨by simp, (h.nodup_digest hb).map (Option.some_injective η)⟩

/-- **The tip determines the chain.** Two chains whose tips are equal have the same
length and agree row by row on whatever equal digests bind. -/
theorem forall₂_of_tip_eq {R : ρ → ρ → Prop} {l l' : List ρ}
    (h : Linked previous digest none l) (h' : Linked previous digest none l')
    (hb : ∀ r ∈ l, ∀ r' ∈ l', digest r = digest r' → previous r = previous r' ∧ R r r')
    (htip : tip digest none l = tip digest none l') : List.Forall₂ R l l' := by
  induction l using List.reverseRecOn generalizing l' with
  | nil =>
    rcases List.eq_nil_or_concat l' with rfl | ⟨init', r', rfl⟩
    · exact .nil
    · rw [List.concat_eq_append, tip_append] at htip
      simp [tip] at htip
  | append_singleton init r ih =>
    rcases List.eq_nil_or_concat l' with rfl | ⟨init', r', rfl⟩
    · rw [tip_append] at htip
      simp [tip] at htip
    · rw [List.concat_eq_append] at h' hb htip ⊢
      rw [tip_append, tip_append, Option.some.injEq] at htip
      obtain ⟨hinit, hr⟩ := (linked_snoc none init r).mp h
      obtain ⟨hinit', hr'⟩ := (linked_snoc none init' r').mp h'
      obtain ⟨hprev, hR⟩ := hb r (by simp) r' (by simp) htip
      have hrest := ih hinit hinit' (fun x hx y hy => hb x (by simp [hx]) y (by simp [hy]))
        (by rw [← hr, ← hr', hprev])
      exact List.rel_append hrest (.cons hR .nil)

end Sentinel.Library.HashChain
