import Mathlib

/-! SQL's `LIKE` and `ILIKE`: `%` stands for any text, `_` for any character, and a backslash
lets the character after it stand for itself.

A text between two `%` matches the texts that contain it, and no others, when none of its
characters is one of the three (`like_between`). Any other is matched by a text no longer
than itself that differs from it (`exists_like_between`). -/
namespace Sentinel.Library.Like

inductive Token where
  | any
  | one
  | lit (c : Char)
  deriving DecidableEq

/-- Not a character that stands for itself. -/
def Special (c : Char) : Prop := c = '%' ∨ c = '_' ∨ c = '\\'

instance : DecidablePred Special := fun c => inferInstanceAs (Decidable (c = '%' ∨ c = '_' ∨ c = '\\'))

/-- The parts of a pattern; one that ends in an escape is an error. -/
def tokens : List Char → Option (List Token)
  | [] => some []
  | '%' :: rest => (tokens rest).map (.any :: ·)
  | '_' :: rest => (tokens rest).map (.one :: ·)
  | ['\\'] => none
  | '\\' :: c :: rest => (tokens rest).map (.lit c :: ·)
  | c :: rest => (tokens rest).map (.lit c :: ·)

def Matches : List Token → List Char → Bool
  | [], text => text.isEmpty
  | .any :: rest, text => text.tails.any (Matches rest)
  | .one :: rest, text =>
    match text with
    | [] => false
    | _ :: text => Matches rest text
  | .lit c :: rest, text =>
    match text with
    | [] => false
    | d :: text => c = d && Matches rest text

/-- `text LIKE pattern`. -/
def like (text pattern : List Char) : Bool := (tokens pattern).any fun ts => Matches ts text

def lower (text : List Char) : List Char := text.map Char.toLower

/-- `text ILIKE pattern`, the letters of ASCII being those with two cases. -/
def ilike (text pattern : List Char) : Bool := like (lower text) (lower pattern)

/-! ### Matching -/

variable {ts : List Token} {p text rest : List Char} {c : Char}

theorem matches_any : Matches (.any :: ts) text ↔ ∃ before after, text = before ++ after ∧ Matches ts after := by
  rw [Matches, List.any_eq_true]
  refine ⟨?_, ?_⟩
  · rintro ⟨after, htail, hmatches⟩
    obtain ⟨before, rfl⟩ := (List.mem_tails _ _).mp htail
    exact ⟨before, after, rfl, hmatches⟩
  · rintro ⟨before, after, rfl, hmatches⟩
    exact ⟨after, (List.mem_tails _ _).mpr (List.suffix_append before after), hmatches⟩

theorem matches_lits : Matches (p.map .lit ++ ts) text ↔ ∃ rest, text = p ++ rest ∧ Matches ts rest := by
  induction p generalizing text with
  | nil => simp
  | cons c p ih =>
    cases text with
    | nil => simp [Matches]
    | cons d text =>
      simp only [List.map_cons, List.cons_append, Matches, Bool.and_eq_true, decide_eq_true_eq, ih, List.cons.injEq]
      refine ⟨?_, ?_⟩
      · rintro ⟨rfl, rest, rfl, hmatches⟩
        exact ⟨rest, ⟨rfl, rfl⟩, hmatches⟩
      · rintro ⟨rest, ⟨rfl, rfl⟩, hmatches⟩
        exact ⟨rfl, rest, rfl, hmatches⟩

/-- Any text is matched at the end. -/
theorem matches_last : Matches [.any] text := by
  refine matches_any.mpr ⟨text, [], (List.append_nil text).symm, rfl⟩

theorem mem_of_matches (h : Matches ts text) (hc : .lit c ∈ ts) : c ∈ text := by
  induction ts generalizing text with
  | nil => cases hc
  | cons t ts ih =>
    cases t with
    | any =>
      obtain ⟨before, after, rfl, hmatches⟩ := matches_any.mp h
      have hrest : .lit c ∈ ts := by simpa using hc
      exact List.mem_append_right before (ih hmatches hrest)
    | one =>
      have hrest : .lit c ∈ ts := by simpa using hc
      cases text with
      | nil => cases h
      | cons d text => exact List.mem_cons_of_mem d (ih h hrest)
    | lit a =>
      cases text with
      | nil => cases h
      | cons d text =>
        obtain ⟨hhead, hmatches⟩ := Bool.and_eq_true_iff.mp h
        obtain rfl := of_decide_eq_true hhead
        rcases List.mem_cons.mp hc with heq | hrest
        · cases heq
          exact List.mem_cons_self
        · exact List.mem_cons_of_mem a (ih hmatches hrest)

/-! ### The parts of a pattern -/

theorem tokens_cons (hc : ¬ Special c) : tokens (c :: rest) = (tokens rest).map (.lit c :: ·) := by
  simp only [Special, not_or] at hc
  rw [tokens]
  · exact fun h => hc.1 h
  · exact fun h => hc.2.1 h
  · exact fun h => absurd h hc.2.2
  · exact fun _ _ h => absurd h hc.2.2

theorem tokens_plain (hp : ∀ c ∈ p, ¬ Special c) :
    tokens (p ++ rest) = (tokens rest).map fun ts => p.map .lit ++ ts := by
  induction p with
  | nil => simp
  | cons c p ih =>
    rw [List.cons_append, tokens_cons (hp c List.mem_cons_self),
      ih fun d hd => hp d (List.mem_cons_of_mem c hd), Option.map_map]
    rfl

theorem not_special (hany : c ≠ '%') (hone : c ≠ '_') (hlast : c = '\\' → rest ≠ [])
    (hescape : ∀ d after, c = '\\' → rest ≠ d :: after) : ¬ Special c := by
  rintro (h | h | h)
  · exact hany h
  · exact hone h
  · cases rest with
    | nil => exact hlast h rfl
    | cons d after => exact hescape d after h rfl

/-- Every other character of a pattern stands for itself. -/
theorem lit_mem_tokens (h : tokens p = some ts) (hc : c ∈ p) (hplain : ¬ Special c) : .lit c ∈ ts := by
  induction p using tokens.induct generalizing ts with
  | case1 => cases hc
  | case4 =>
    rw [List.mem_singleton.mp hc] at hplain
    exact absurd (.inr (.inr rfl)) hplain
  | case2 rest ih | case3 rest ih =>
    obtain ⟨us, hus, rfl⟩ := Option.map_eq_some_iff.mp h
    rcases List.mem_cons.mp hc with rfl | hc
    · exact absurd (by simp [Special]) hplain
    · exact List.mem_cons_of_mem _ (ih hus hc)
  | case5 d rest ih =>
    obtain ⟨us, hus, rfl⟩ := Option.map_eq_some_iff.mp h
    rcases List.mem_cons.mp hc with rfl | hc
    · exact absurd (.inr (.inr rfl)) hplain
    · rcases List.mem_cons.mp hc with rfl | hc
      · exact List.mem_cons_self
      · exact List.mem_cons_of_mem _ (ih hus hc)
  | case6 d rest hany hone hlast hescape ih =>
    rw [tokens_cons (not_special hany hone hlast hescape)] at h
    obtain ⟨us, hus, rfl⟩ := Option.map_eq_some_iff.mp h
    rcases List.mem_cons.mp hc with rfl | hc
    · exact List.mem_cons_self
    · exact List.mem_cons_of_mem _ (ih hus hc)

theorem mem_of_like (h : like text p) (hc : c ∈ p) (hplain : ¬ Special c) : c ∈ text := by
  unfold like at h
  cases hts : tokens p with
  | none =>
    rw [hts] at h
    cases h
  | some ts =>
    rw [hts] at h
    exact mem_of_matches h (lit_mem_tokens hts hc hplain)

/-- A plain text between two wildcards. -/
theorem like_between (hp : ∀ c ∈ p, ¬ Special c) : like text ('%' :: p ++ ['%']) ↔ p <:+: text := by
  have htokens : tokens ('%' :: p ++ ['%']) = some (.any :: (p.map .lit ++ [.any])) := by
    rw [List.cons_append, tokens, tokens_plain hp]
    rfl
  rw [like, htokens]
  show Matches (.any :: (p.map .lit ++ [.any])) text ↔ _
  rw [matches_any]
  refine ⟨?_, ?_⟩
  · rintro ⟨before, after, rfl, hmatches⟩
    obtain ⟨rest, rfl, _⟩ := matches_lits.mp hmatches
    exact ⟨before, rest, List.append_assoc before p rest⟩
  · rintro ⟨before, rest, rfl⟩
    exact ⟨before, p ++ rest, List.append_assoc before p rest, matches_lits.mpr ⟨rest, rfl, matches_last⟩⟩

/-! ### The shortest text that a pattern matches -/

def shortest : List Token → List Char
  | [] => []
  | .any :: rest => shortest rest
  | .one :: rest => 'a' :: shortest rest
  | .lit c :: rest => c :: shortest rest

theorem matches_shortest (ts : List Token) : Matches ts (shortest ts) := by
  induction ts with
  | nil => rfl
  | cons t ts ih =>
    cases t with
    | any => exact matches_any.mpr ⟨[], shortest ts, rfl, ih⟩
    | one => exact ih
    | lit c => simp [shortest, Matches, ih]

/-- No longer than `p`, and `p` itself only if that is plain. -/
structure Shorter (p text : List Char) : Prop where
  length : text.length ≤ p.length
  plain : text = p → ∀ c ∈ p, ¬ Special c
  chars : ∀ c ∈ text, c ∈ p ∨ c = 'a' ∨ c = '%'

theorem shorter_shortest (p : List Char) : ∃ ts, tokens (p ++ ['%']) = some ts ∧ Shorter p (shortest ts) := by
  induction p using tokens.induct with
  | case1 => exact ⟨[.any], rfl, le_rfl, by simp, by simp [shortest]⟩
  | case2 rest ih =>
    obtain ⟨ts, hts, hshorter⟩ := ih
    refine ⟨.any :: ts, by rw [List.cons_append, tokens, hts]; rfl, ?_, ?_, ?_⟩
    · exact hshorter.length.trans (Nat.le_succ _)
    · intro heq
      have hlength : (shortest ts).length = rest.length + 1 := congrArg List.length heq
      exact absurd hshorter.length (by omega)
    · intro c hc
      exact (hshorter.chars c hc).imp_left (List.mem_cons_of_mem _)
  | case3 rest ih =>
    obtain ⟨ts, hts, hshorter⟩ := ih
    refine ⟨.one :: ts, by rw [List.cons_append, tokens, hts]; rfl, ?_, ?_, ?_⟩
    · exact Nat.succ_le_succ hshorter.length
    · intro heq
      exact absurd (List.cons.inj heq).1 (by decide)
    · intro c hc
      rcases List.mem_cons.mp hc with rfl | hc
      · exact .inr (.inl rfl)
      · exact (hshorter.chars c hc).imp_left (List.mem_cons_of_mem _)
  | case4 => exact ⟨[.lit '%'], rfl, le_rfl, by simp [shortest], by simp [shortest]⟩
  | case5 c rest ih =>
    obtain ⟨ts, hts, hshorter⟩ := ih
    refine ⟨.lit c :: ts, by rw [List.cons_append, List.cons_append, tokens, hts]; rfl, ?_, ?_, ?_⟩
    · exact Nat.succ_le_succ (hshorter.length.trans (Nat.le_succ _))
    · intro heq
      have hlength : (shortest ts).length + 1 = rest.length + 2 := congrArg List.length heq
      exact absurd hshorter.length (by omega)
    · intro d hd
      rcases List.mem_cons.mp hd with rfl | hd
      · exact .inl (List.mem_cons_of_mem _ List.mem_cons_self)
      · exact (hshorter.chars d hd).imp_left fun h => List.mem_cons_of_mem _ (List.mem_cons_of_mem _ h)
  | case6 c rest hany hone hlast hescape ih =>
    obtain ⟨ts, hts, hshorter⟩ := ih
    have hplain : ¬ Special c := not_special hany hone hlast hescape
    refine ⟨.lit c :: ts, by rw [List.cons_append, tokens_cons hplain, hts]; rfl, ?_, ?_, ?_⟩
    · exact Nat.succ_le_succ hshorter.length
    · intro heq d hd
      rcases List.mem_cons.mp hd with rfl | hd
      · exact hplain
      · exact hshorter.plain (List.cons.inj heq).2 d hd
    · intro d hd
      rcases List.mem_cons.mp hd with rfl | hd
      · exact .inl List.mem_cons_self
      · exact (hshorter.chars d hd).imp_left (List.mem_cons_of_mem _)

/-- A text between two wildcards that is not plain is matched by one that does not contain it. -/
theorem exists_like_between (hp : ¬ ∀ c ∈ p, ¬ Special c) :
    ∃ text, like text ('%' :: p ++ ['%']) ∧ ¬ p <:+: text ∧ ∀ c ∈ text, c ∈ p ∨ c = 'a' ∨ c = '%' := by
  obtain ⟨ts, htokens, hshorter⟩ := shorter_shortest p
  refine ⟨shortest ts, ?_, ?_, hshorter.chars⟩
  · rw [like, List.cons_append, tokens, htokens]
    exact matches_shortest (.any :: ts)
  · intro hwithin
    exact hp (hshorter.plain (hwithin.eq_of_length_le hshorter.length).symm)

/-! ### Letters -/

/-- A capital letter becomes the small one, 32 places on; nothing else changes. -/
theorem toLower_cases (c : Char) : 65 ≤ c.toNat ∧ c.toNat ≤ 90 ∧ c.toLower.toNat = c.toNat + 32 ∨
    ¬ (65 ≤ c.toNat ∧ c.toNat ≤ 90) ∧ c.toLower = c := by
  have hrange : (c.val ≥ 'A'.val ∧ c.val ≤ 'Z'.val) ↔ 65 ≤ c.toNat ∧ c.toNat ≤ 90 := by
    simp only [ge_iff_le, UInt32.le_iff_toNat_le]
    exact Iff.rfl
  unfold Char.toLower
  split_ifs with h
  · obtain ⟨hlow, hhigh⟩ := hrange.mp h
    refine .inl ⟨hlow, hhigh, ?_⟩
    show (c.val + ('a'.val - 'A'.val)).toNat = c.val.toNat + 32
    have hbound : c.val.toNat ≤ 90 := hhigh
    have hshift : ('a'.val - 'A'.val).toNat = 32 := by decide
    rw [UInt32.toNat_add, hshift, Nat.mod_eq_of_lt (by omega)]
  · exact .inr ⟨fun hr => h (hrange.mpr hr), rfl⟩

theorem toLower_toLower (c : Char) : c.toLower.toLower = c.toLower := by
  rcases toLower_cases c with ⟨hlow, hhigh, hval⟩ | ⟨_, hsame⟩
  · rcases toLower_cases c.toLower with ⟨_, hhigh', _⟩ | ⟨_, hsame⟩
    · omega
    · exact hsame
  · rw [hsame, hsame]

/-- What is no letter comes from itself alone. -/
theorem toLower_eq_iff {c d : Char} (hd : d.toNat < 65 ∨ 90 < d.toNat ∧ d.toNat < 97) : c.toLower = d ↔ c = d := by
  rcases toLower_cases c with ⟨hlow, hhigh, hval⟩ | ⟨_, hsame⟩
  · refine iff_of_false ?_ ?_
    · rintro rfl
      omega
    · rintro rfl
      omega
  · rw [hsame]

theorem special_toLower (c : Char) : Special c.toLower ↔ Special c := by
  unfold Special
  rw [toLower_eq_iff (by decide), toLower_eq_iff (by decide), toLower_eq_iff (by decide)]

theorem plain_lower : (∀ c ∈ lower p, ¬ Special c) ↔ ∀ c ∈ p, ¬ Special c := by
  simp [lower, special_toLower]

theorem lower_between (p : List Char) : lower ('%' :: p ++ ['%']) = '%' :: lower p ++ ['%'] := by
  simp [lower]

theorem mem_lower_iff (hc : c.toNat < 65 ∨ 90 < c.toNat ∧ c.toNat < 97) : c ∈ lower p ↔ c ∈ p := by
  simp [lower, toLower_eq_iff hc]

theorem ilike_between (hp : ∀ c ∈ p, ¬ Special c) : ilike text ('%' :: p ++ ['%']) ↔ lower p <:+: lower text := by
  rw [ilike, lower_between]
  exact like_between (plain_lower.mpr hp)

theorem exists_ilike_between (hp : ¬ ∀ c ∈ p, ¬ Special c) :
    ∃ text, ilike text ('%' :: p ++ ['%']) ∧ ¬ lower p <:+: lower text ∧
      ∀ c ∈ text, c ∈ lower p ∨ c = 'a' ∨ c = '%' := by
  obtain ⟨text, hlike, hwithin, hchars⟩ := exists_like_between (mt plain_lower.mp hp)
  have hlower : lower text = text := by
    have hfixed : ∀ c ∈ text, c.toLower = id c := by
      intro c hc
      rcases hchars c hc with hmem | rfl | rfl
      · obtain ⟨d, _, rfl⟩ := List.mem_map.mp hmem
        exact toLower_toLower d
      · rfl
      · rfl
    exact (List.map_congr_left hfixed).trans (List.map_id text)
  refine ⟨text, ?_, ?_, hchars⟩
  · rw [ilike, lower_between, hlower]
    exact hlike
  · rw [hlower]
    exact hwithin

theorem mem_of_ilike (h : ilike text p) (hc : c ∈ p) (hplain : ¬ Special c)
    (hletter : c.toNat < 65 ∨ 90 < c.toNat ∧ c.toNat < 97) : c ∈ text :=
  (mem_lower_iff hletter).mp (mem_of_like h ((mem_lower_iff hletter).mpr hc) hplain)

end Sentinel.Library.Like
