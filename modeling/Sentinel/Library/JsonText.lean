import Sentinel.Library.Json

/-! The canonical text of a JSON value determines the value.

The text is uniquely decodable: whatever follows it, one reading of `dumps v ++ s`
is possible, as long as `s` does not go on with a number or a word (`Ends`).
Scalars other than strings are runs of `atomChar`, strings end at the first bare
quote, arrays and objects at their bracket. The converse, that equal values have
one text, is where keys that repeat would matter. -/
namespace Sentinel.Library.Json

/-! ### Characters of numbers and words -/

/-- What `null`, `true`, `false` and numbers are made of. -/
def atomChar (c : Char) : Bool := c.isAlphanum || c == '-' || c == '+' || c == '.'

/-- Nothing, or something no number or word goes on with. -/
def Ends (s : List Char) : Prop := ∀ c ∈ s.head?, atomChar c = false

theorem ends_cons {c : Char} (s : List Char) (h : atomChar c = false) : Ends (c :: s) := by
  intro d hd
  obtain rfl : c = d := by simpa using hd
  exact h

theorem atomChar_digit {c : Char} (h : c.isDigit) : atomChar c = true := by
  simp [atomChar, Char.isAlphanum, h]

/-- Runs of atom characters are cut off at the same place. -/
theorem atoms_split {u v s t : List Char} (hu : ∀ c ∈ u, atomChar c = true)
    (hv : ∀ c ∈ v, atomChar c = true) (hs : Ends s) (ht : Ends t) (h : u ++ s = v ++ t) :
    u = v ∧ s = t := by
  induction u generalizing v with
  | nil =>
    cases v with
    | nil => exact ⟨rfl, h⟩
    | cons c v =>
      have : s.head? = some c := by rw [List.nil_append] at h; rw [h]; rfl
      have := hs c this
      simp [hv c (by simp)] at this
  | cons c u ih =>
    cases v with
    | nil =>
      have : t.head? = some c := by rw [List.nil_append] at h; rw [← h]; rfl
      have := ht c this
      simp [hu c (by simp)] at this
    | cons d v =>
      obtain ⟨hcd, hrest⟩ := List.cons.inj h
      obtain ⟨huv, hst⟩ := ih (fun c hc => hu c (List.mem_cons_of_mem _ hc))
        (fun c hc => hv c (List.mem_cons_of_mem _ hc)) hrest
      exact ⟨by rw [hcd, huv], hst⟩

theorem signText_char {b : Bool} {c : Char} (h : c ∈ Double.signText b) : c = '-' := by
  cases b
  · simp [Double.signText] at h
  · simpa [Double.signText] using h

theorem intText_char {i : Int} {c : Char} (h : c ∈ intText i) : c = '-' ∨ c.isDigit := by
  rcases List.mem_append.mp h with h | h
  · exact .inl (signText_char h)
  · exact .inr (Digits.isDigit_of_mem_decimal h)

theorem intText_inj {i j : Int} (h : intText i = intText j) : i = j := by
  have digits_head : ∀ n, (Nat.toDigits 10 n).head? ≠ some '-' := by
    intro n hn
    exact absurd (Digits.isDigit_of_mem_decimal (List.mem_of_mem_head? hn)) (by decide)
  unfold intText at h
  by_cases hi : i < 0 <;> by_cases hj : j < 0
  · simp only [hi, hj, Double.signText, decide_true, if_true, List.singleton_append,
      List.cons.injEq, true_and] at h
    have := Digits.decimal_inj h
    omega
  · simp only [hi, hj, Double.signText, decide_true, decide_false, if_true, Bool.false_eq_true,
      if_false, List.singleton_append, List.nil_append] at h
    exact absurd (by rw [← h]; rfl) (digits_head j.natAbs)
  · simp only [hi, hj, Double.signText, decide_true, decide_false, if_true, Bool.false_eq_true,
      if_false, List.singleton_append, List.nil_append] at h
    exact absurd (by rw [h]; rfl) (digits_head i.natAbs)
  · simp only [hi, hj, Double.signText, decide_false, Bool.false_eq_true, if_false,
      List.nil_append] at h
    have := Digits.decimal_inj h
    omega

/-! ### The text of a double -/

theorem positional_char {ds : List Char} (hds : ∀ c ∈ ds, c.isDigit) (p : Int) {c : Char}
    (h : c ∈ Double.positional ds p) : c = '.' ∨ c.isDigit := by
  unfold Double.positional at h
  have zero : ('0').isDigit = true := by decide
  split_ifs at h
  · simp only [List.mem_cons, List.mem_append, List.mem_replicate] at h
    rcases h with rfl | rfl | ⟨-, rfl⟩ | h
    exacts [.inr zero, .inl rfl, .inr zero, .inr (hds c h)]
  · simp only [List.mem_cons, List.mem_append, List.mem_replicate, List.not_mem_nil, or_false] at h
    rcases h with (h | ⟨-, rfl⟩) | rfl | rfl
    exacts [.inr (hds c h), .inr zero, .inl rfl, .inr zero]
  · simp only [List.mem_cons, List.mem_append] at h
    rcases h with h | rfl | h
    exacts [.inr (hds c (List.mem_of_mem_take h)), .inl rfl, .inr (hds c (List.mem_of_mem_drop h))]

theorem positional_dot (ds : List Char) (p : Int) : '.' ∈ Double.positional ds p := by
  unfold Double.positional
  split_ifs <;> simp

theorem scientific_char {ds : List Char} (hds : ∀ c ∈ ds, c.isDigit) (p : Int) {c : Char}
    (h : c ∈ Double.scientific ds p) : c = '.' ∨ c = 'e' ∨ c = '-' ∨ c = '+' ∨ c.isDigit := by
  have zero : ('0').isDigit = true := by decide
  have exponent : ∀ c ∈ Nat.toDigits 10 (p - 1).natAbs, c.isDigit := fun c hc =>
    Digits.isDigit_of_mem_decimal hc
  simp only [Double.scientific, List.mem_append, List.mem_cons] at h
  rcases h with (h | h) | rfl | rfl | h
  · exact .inr (.inr (.inr (.inr (hds c (List.mem_of_mem_take h)))))
  · split_ifs at h
    · simp at h
    · rcases List.mem_cons.mp h with rfl | h
      · exact .inl rfl
      · exact .inr (.inr (.inr (.inr (hds c (List.mem_of_mem_drop h)))))
  · exact .inr (.inl rfl)
  · split_ifs <;> simp
  · split_ifs at h
    · rcases List.mem_cons.mp h with rfl | h
      · exact .inr (.inr (.inr (.inr zero)))
      · exact .inr (.inr (.inr (.inr (exponent c h))))
    · exact .inr (.inr (.inr (.inr (exponent c h))))

/-- The characters of a double's text. -/
theorem repr_char (d : Double) : ∀ c ∈ d.repr, c.isDigit ∨ c ∈ "-+.eInfityNa".toList := by
  intro c hc
  have digits : ∀ (x : Decimal), ∀ c ∈ Nat.toDigits 10 x.digits, c.isDigit := fun x c h =>
    Digits.isDigit_of_mem_decimal h
  have sign : ∀ b, c ∈ Double.signText b → c ∈ "-+.eInfityNa".toList := by
    intro b h
    rw [signText_char h]
    decide
  cases d with
  | finite x =>
    rcases List.mem_append.mp hc with h | h
    · exact .inr (sign _ h)
    · split_ifs at h
      · rcases scientific_char (digits x) _ h with rfl | rfl | rfl | rfl | h
        all_goals first | exact .inl h | exact .inr (by decide)
      · rcases positional_char (digits x) _ h with rfl | h
        · exact .inr (by decide)
        · exact .inl h
  | infinity negative =>
    rcases List.mem_append.mp hc with h | h
    · exact .inr (sign _ h)
    · exact .inr (List.subset_def.mp (by decide) h)
  | nan => exact .inr (List.subset_def.mp (by decide) hc)

theorem repr_atom (d : Double) : ∀ c ∈ d.repr, atomChar c = true := by
  have marks : ∀ c ∈ "-+.eInfityNa".toList, atomChar c = true := List.all_eq_true.mp (by decide)
  intro c hc
  rcases repr_char d c hc with h | h
  · exact atomChar_digit h
  · exact marks c h

/-- Every word of JSON has one of these two letters, no number has. -/
theorem repr_no_word (d : Double) : 'u' ∉ d.repr ∧ 's' ∉ d.repr := by
  constructor <;> intro h <;> rcases repr_char d _ h with h | h <;> revert h <;> decide

/-- A double's text has a character no integer's text has. -/
theorem repr_marker (d : Double) : ∃ c ∈ d.repr, c ≠ '-' ∧ c.isDigit = false := by
  cases d with
  | finite x =>
    simp only [Double.repr]
    split_ifs
    · exact ⟨'e', by simp [Double.scientific], by decide⟩
    · exact ⟨'.', List.mem_append_right _ (positional_dot _ _), by decide⟩
  | infinity negative => exact ⟨'I', by simp [Double.repr], by decide⟩
  | nan => exact ⟨'N', by simp [Double.repr], by decide⟩

theorem intText_atom (i : Int) : ∀ c ∈ intText i, atomChar c = true := by
  intro c hc
  rcases intText_char hc with rfl | h
  · decide
  · exact atomChar_digit h

theorem intText_no_word (i : Int) : 'u' ∉ intText i ∧ 's' ∉ intText i := by
  constructor <;> intro h <;> rcases intText_char h with h | h <;> revert h <;> decide

theorem intText_ne_repr (i : Int) (d : Double) : intText i ≠ d.repr := by
  intro h
  obtain ⟨c, hc, hminus, hdigit⟩ := repr_marker d
  rcases intText_char (h ▸ hc) with rfl | h
  · exact hminus rfl
  · simp [h] at hdigit

/-! ### Strings -/

/-- Reads one escaped character back; only the proofs below use it. -/
def unescape : List Char → Option (Char × List Char)
  | '\\' :: 'u' :: a :: b :: c :: d :: rest =>
    let n := Digits.value16 [a, b, c, d]
    if 0xd800 ≤ n ∧ n < 0xdc00 then
      match rest with
      | _ :: _ :: a' :: b' :: c' :: d' :: rest =>
        some (Char.ofNat (0x10000 + (n - 0xd800) * 0x400 + (Digits.value16 [a', b', c', d'] - 0xdc00)),
          rest)
      | _ => none
    else some (Char.ofNat n, rest)
  | '\\' :: e :: rest =>
    some (if e = 'n' then '\n' else if e = 'r' then '\r' else if e = 't' then '\t'
      else if e = 'f' then '\x0c' else if e = 'b' then '\x08' else e, rest)
  | c :: rest => some (c, rest)
  | [] => none

/-- A scalar value is not a surrogate. -/
theorem toNat_ranges (c : Char) :
    c.toNat < 0xd800 ∨ 0xdfff < c.toNat ∧ c.toNat < 0x110000 := by
  have := c.valid
  simpa [UInt32.isValidChar, Nat.isValidChar] using this

theorem unescape_unicode {n : Nat} (hn : n < 16 ^ 4) (hs : ¬ (0xd800 ≤ n ∧ n < 0xdc00))
    (rest : List Char) : unescape (unicodeEscape n ++ rest) = some (Char.ofNat n, rest) := by
  have hv := Digits.value16_fixed hn
  simp only [unicodeEscape, Digits.fixed, List.nil_append, List.cons_append] at hv ⊢
  rw [unescape.eq_def]
  simp only [hv, if_neg hs]

theorem unescape_pair {high low : Nat} (hh : 0xd800 ≤ high) (hh' : high < 0xdc00)
    (hl : low < 16 ^ 4) (rest : List Char) :
    unescape (unicodeEscape high ++ (unicodeEscape low ++ rest)) =
      some (Char.ofNat (0x10000 + (high - 0xd800) * 0x400 + (low - 0xdc00)), rest) := by
  have hhigh : high < 16 ^ 4 := by omega
  have hv := Digits.value16_fixed hhigh
  have hv' := Digits.value16_fixed hl
  simp only [unicodeEscape, Digits.fixed, List.nil_append, List.cons_append] at hv hv' ⊢
  rw [unescape, hv]
  simp only [hh, hh', and_self, if_true, hv']

theorem unescape_short {c e : Char} (h : shortEscape c = some e) (rest : List Char) :
    unescape ('\\' :: e :: rest) = some (c, rest) := by
  unfold shortEscape at h
  split_ifs at h <;> (obtain rfl := Option.some.inj h; subst_vars; rfl)

theorem unescape_plain {c : Char} (h : shortEscape c = none) (rest : List Char) :
    unescape (c :: rest) = some (c, rest) := by
  have hc : c ≠ '\\' := by
    rintro rfl
    simp [shortEscape] at h
  rw [unescape.eq_def]
  split <;> simp_all

theorem unescape_escapeChar (c : Char) (rest : List Char) :
    unescape (escapeChar c ++ rest) = some (c, rest) := by
  unfold escapeChar
  cases hshort : shortEscape c with
  | some e => exact unescape_short hshort rest
  | none =>
    have hrange := toNat_ranges c
    dsimp only
    split_ifs with hprint hbasic
    · exact unescape_plain hshort rest
    · rw [unescape_unicode (by omega) (by omega), Char.ofNat_toNat]
    · rw [List.append_assoc, unescape_pair (by omega) (by omega) (by omega)]
      have hback : 0x10000 + (0xd800 + (c.toNat - 0x10000) / 0x400 - 0xd800) * 0x400 +
          (0xdc00 + (c.toNat - 0x10000) % 0x400 - 0xdc00) = c.toNat := by omega
      rw [hback, Char.ofNat_toNat]

/-- No escaped character starts like the closing quote. -/
theorem escapeChar_head (c : Char) : ∃ d l, escapeChar c = d :: l ∧ d ≠ '"' := by
  unfold escapeChar
  cases hshort : shortEscape c with
  | some e => exact ⟨'\\', [e], rfl, by decide⟩
  | none =>
    dsimp only
    split_ifs
    · refine ⟨c, [], rfl, ?_⟩
      rintro rfl
      simp [shortEscape] at hshort
    · exact ⟨'\\', _, rfl, by decide⟩
    · exact ⟨'\\', _, rfl, by decide⟩

theorem escape_split {k l : List Char} {s t : List Char}
    (h : k.flatMap escapeChar ++ '"' :: s = l.flatMap escapeChar ++ '"' :: t) : k = l ∧ s = t := by
  induction k generalizing l with
  | nil =>
    cases l with
    | nil => exact ⟨rfl, (List.cons.inj h).2⟩
    | cons d l =>
      obtain ⟨e, m, he, hne⟩ := escapeChar_head d
      simp only [List.flatMap_nil, List.nil_append, List.flatMap_cons, he, List.cons_append,
        List.cons.injEq] at h
      exact absurd h.1.symm hne
  | cons c k ih =>
    cases l with
    | nil =>
      obtain ⟨e, m, he, hne⟩ := escapeChar_head c
      simp only [List.flatMap_nil, List.nil_append, List.flatMap_cons, he, List.cons_append,
        List.cons.injEq] at h
      exact absurd h.1 hne
    | cons d l =>
      simp only [List.flatMap_cons, List.append_assoc] at h
      have hread := congrArg unescape h
      rw [unescape_escapeChar, unescape_escapeChar, Option.some.injEq, Prod.mk.injEq] at hread
      obtain ⟨hkl, hst⟩ := ih hread.2
      exact ⟨by rw [hread.1, hkl], hst⟩

theorem quote_split {k l : String} {s t : List Char} (h : quote k ++ s = quote l ++ t) :
    k = l ∧ s = t := by
  simp only [quote, List.cons_append, List.append_assoc, List.cons.injEq, true_and,
    List.nil_append] at h
  obtain ⟨hkl, hst⟩ := escape_split h
  exact ⟨String.toList_inj.mp hkl, hst⟩

/-! ### Items between commas -/

theorem commaJoin_cons (x : List Char) (rest : List (List Char)) :
    commaJoin (x :: rest) = x ++ rest.flatMap (fun y => ',' :: y) := by
  induction rest generalizing x with
  | nil => simp [commaJoin]
  | cons y rest ih => simp [commaJoin, ih]

section Items
variable {α : Type*} {f : α → List Char} {R : α → α → Prop} {close : Char}

theorem ends_tail (hclose : atomChar close = false) (xs : List α) (s : List Char) :
    Ends (xs.flatMap (fun x => ',' :: f x) ++ close :: s) := by
  cases xs with
  | nil => exact ends_cons s hclose
  | cons x rest =>
    simp only [List.flatMap_cons, List.cons_append]
    exact ends_cons _ (by decide)

theorem tail_split (hclose : atomChar close = false) (hcomma : close ≠ ',') {xs ys : List α}
    (hitem : ∀ x ∈ xs, ∀ y ∈ ys, ∀ s t, Ends s → Ends t → f x ++ s = f y ++ t → R x y ∧ s = t)
    {s t : List Char}
    (h : xs.flatMap (fun x => ',' :: f x) ++ close :: s =
      ys.flatMap (fun y => ',' :: f y) ++ close :: t) : List.Forall₂ R xs ys ∧ s = t := by
  induction xs generalizing ys with
  | nil =>
    cases ys with
    | nil => exact ⟨.nil, (List.cons.inj h).2⟩
    | cons y ys =>
      simp only [List.flatMap_nil, List.nil_append, List.flatMap_cons, List.cons_append,
        List.cons.injEq] at h
      exact absurd h.1 hcomma
  | cons x xs ih =>
    cases ys with
    | nil =>
      simp only [List.flatMap_nil, List.nil_append, List.flatMap_cons, List.cons_append,
        List.cons.injEq] at h
      exact absurd h.1.symm hcomma
    | cons y ys =>
      simp only [List.flatMap_cons, List.cons_append, List.cons.injEq, true_and,
        List.append_assoc] at h
      obtain ⟨hxy, hrest⟩ := hitem x (by simp) y (by simp) _ _ (ends_tail hclose xs s)
        (ends_tail hclose ys t) h
      obtain ⟨hall, hst⟩ := ih (fun a ha b hb => hitem a (by simp [ha]) b (by simp [hb])) hrest
      exact ⟨.cons hxy hall, hst⟩

theorem commaJoin_split (hclose : atomChar close = false) (hcomma : close ≠ ',') {xs ys : List α}
    (hstart : ∀ x, ∃ c l, f x = c :: l ∧ c ≠ close)
    (hitem : ∀ x ∈ xs, ∀ y ∈ ys, ∀ s t, Ends s → Ends t → f x ++ s = f y ++ t → R x y ∧ s = t)
    {s t : List Char}
    (h : commaJoin (xs.map f) ++ close :: s = commaJoin (ys.map f) ++ close :: t) :
    List.Forall₂ R xs ys ∧ s = t := by
  -- An item never starts like the closing bracket, so one empty list is two.
  have empty : ∀ (x : α) (zs : List α) (s t : List Char),
      close :: s ≠ commaJoin ((x :: zs).map f) ++ close :: t := by
    intro x zs s t h
    obtain ⟨c, l, hc, hne⟩ := hstart x
    rw [List.map_cons, commaJoin_cons, hc] at h
    exact hne (List.cons.inj h).1.symm
  cases xs with
  | nil =>
    cases ys with
    | nil => exact ⟨.nil, (List.cons.inj h).2⟩
    | cons y ys => exact absurd h (empty y ys s t)
  | cons x xs =>
    cases ys with
    | nil => exact absurd h.symm (empty x xs t s)
    | cons y ys =>
      simp only [List.map_cons, commaJoin_cons, List.append_assoc, List.flatMap_map] at h
      obtain ⟨hxy, hrest⟩ := hitem x (by simp) y (by simp) _ _ (ends_tail hclose xs s)
        (ends_tail hclose ys t) h
      obtain ⟨hall, hst⟩ := tail_split hclose hcomma
        (fun a ha b hb => hitem a (by simp [ha]) b (by simp [hb])) hrest
      exact ⟨.cons hxy hall, hst⟩

end Items

/-! ### Values -/

/-- The first character of a string, an array or an object; none for other values. -/
def lead : Json → Option Char
  | .str _ => some '"'
  | .arr _ => some '['
  | .obj _ => some '{'
  | _ => none

theorem dumps_atom {v : Json} (h : lead v = none) :
    dumps v ≠ [] ∧ ∀ c ∈ dumps v, atomChar c = true := by
  have words : ∀ w ∈ ["null", "true", "false"], ∀ c ∈ w.toList, atomChar c = true := by
    intro w hw
    simp only [List.mem_cons, List.not_mem_nil, or_false] at hw
    rcases hw with rfl | rfl | rfl <;> exact List.all_eq_true.mp (by decide)
  cases v with
  | null => exact ⟨by simp [dumps], words "null" (by simp)⟩
  | bool b =>
    cases b
    · exact ⟨by simp [dumps], words "false" (by simp)⟩
    · exact ⟨by simp [dumps], words "true" (by simp)⟩
  | int i => exact ⟨by simp [dumps, intText, Nat.toDigits_ne_nil], by simpa [dumps] using intText_atom i⟩
  | float d =>
    refine ⟨?_, by simpa [dumps] using repr_atom d⟩
    obtain ⟨c, hc, -⟩ := repr_marker d
    rw [dumps]
    exact List.ne_nil_of_mem hc
  | str s => cases h
  | arr items => cases h
  | obj members => cases h

theorem dumps_lead {v : Json} {c : Char} (h : lead v = some c) :
    atomChar c = false ∧ ∃ l, dumps v = c :: l := by
  cases v with
  | str s => obtain rfl := Option.some.inj h; exact ⟨by decide, _, rfl⟩
  | arr items => obtain rfl := Option.some.inj h; exact ⟨by decide, _, dumps_arr items⟩
  | obj members => obtain rfl := Option.some.inj h; exact ⟨by decide, _, dumps_obj members⟩
  | _ => cases h

/-- A value never starts like the bracket that would close an empty list. -/
theorem dumps_start (v : Json) {close : Char} (hclose : atomChar close = false)
    (hlead : lead v ≠ some close) : ∃ c l, dumps v = c :: l ∧ c ≠ close := by
  cases hl : lead v with
  | some c =>
    obtain ⟨-, l, h⟩ := dumps_lead hl
    exact ⟨c, l, h, fun hc => hlead (by rw [hl, hc])⟩
  | none =>
    obtain ⟨hne, hall⟩ := dumps_atom hl
    obtain ⟨c, l, h⟩ := List.exists_cons_of_ne_nil hne
    refine ⟨c, l, h, ?_⟩
    rintro rfl
    have := hall c (by rw [h]; simp)
    simp [hclose] at this

/-- Equal texts begin with values of one kind. -/
theorem lead_eq {a b : Json} {s t : List Char} (h : dumps a ++ s = dumps b ++ t) :
    lead a = lead b := by
  have mixed : ∀ {a b : Json} {s t : List Char} {c : Char}, dumps a ++ s = dumps b ++ t →
      lead a = none → lead b ≠ some c := by
    intro a b s t c h ha hb
    obtain ⟨hne, hall⟩ := dumps_atom ha
    obtain ⟨hc, l, hl⟩ := dumps_lead hb
    obtain ⟨d, m, hm⟩ := List.exists_cons_of_ne_nil hne
    rw [hl, hm] at h
    obtain rfl : d = c := (List.cons.inj h).1
    have := hall d (by rw [hm]; simp)
    simp [hc] at this
  cases ha : lead a with
  | none =>
    cases hb : lead b with
    | none => rfl
    | some d => exact absurd hb (mixed h ha)
  | some c =>
    cases hb : lead b with
    | none => exact absurd ha (mixed h.symm hb)
    | some d =>
      obtain ⟨-, l, hl⟩ := dumps_lead ha
      obtain ⟨-, m, hm⟩ := dumps_lead hb
      rw [hl, hm] at h
      rw [(List.cons.inj h).1]

theorem dumps_int (i : Int) : dumps (.int i) = intText i := by rw [dumps]
theorem dumps_float (d : Double) : dumps (.float d) = d.repr := by rw [dumps]
theorem dumps_str (s : String) : dumps (.str s) = quote s := by rw [dumps]

/-- The three words are told from each other and from every number. -/
theorem atom_inj {a b : Json} (ha : lead a = none) (hb : lead b = none)
    (h : dumps a = dumps b) : Same a b := by
  have number : ∀ {w t : List Char}, 'u' ∈ w ∨ 's' ∈ w → 'u' ∉ t ∧ 's' ∉ t → w ≠ t := by
    rintro w t hw ⟨hu, hs⟩ rfl
    exact hw.elim hu hs
  have word : ∀ {v : Json}, v = .null ∨ (∃ b, v = .bool b) → 'u' ∈ dumps v ∨ 's' ∈ dumps v := by
    rintro v (rfl | ⟨b, rfl⟩)
    · exact .inl (by simp [dumps])
    · cases b
      · exact .inr (by simp [dumps])
      · exact .inl (by simp [dumps])
  have ints : ∀ i, 'u' ∉ dumps (.int i) ∧ 's' ∉ dumps (.int i) := fun i => by
    rw [dumps_int]
    exact intText_no_word i
  have floats : ∀ d, 'u' ∉ dumps (.float d) ∧ 's' ∉ dumps (.float d) := fun d => by
    rw [dumps_float]
    exact repr_no_word d
  cases a with
  | null =>
    cases b with
    | null => exact .null
    | bool b => cases b <;> simp [dumps] at h
    | int i => exact absurd h (number (word (.inl rfl)) (ints i))
    | float d => exact absurd h (number (word (.inl rfl)) (floats d))
    | _ => cases hb
  | bool a =>
    cases b with
    | null => cases a <;> simp [dumps] at h
    | bool b => cases a <;> cases b <;> first | exact .bool _ | simp [dumps] at h
    | int i => exact absurd h (number (word (.inr ⟨a, rfl⟩)) (ints i))
    | float d => exact absurd h (number (word (.inr ⟨a, rfl⟩)) (floats d))
    | _ => cases hb
  | int i =>
    cases b with
    | null => exact absurd h.symm (number (word (.inl rfl)) (ints i))
    | bool b => exact absurd h.symm (number (word (.inr ⟨b, rfl⟩)) (ints i))
    | int j =>
      rw [dumps_int, dumps_int] at h
      rw [intText_inj h]
      exact .int j
    | float d =>
      rw [dumps_int, dumps_float] at h
      exact absurd h (intText_ne_repr i d)
    | _ => cases hb
  | float d =>
    cases b with
    | null => exact absurd h.symm (number (word (.inl rfl)) (floats d))
    | bool b => exact absurd h.symm (number (word (.inr ⟨b, rfl⟩)) (floats d))
    | int i =>
      rw [dumps_int, dumps_float] at h
      exact absurd h.symm (intText_ne_repr i d)
    | float e =>
      rw [dumps_float, dumps_float] at h
      exact .float h
    | _ => cases hb
  | _ => cases ha

theorem atom_split {a b : Json} {s t : List Char} (hs : Ends s) (ht : Ends t)
    (ha : lead a = none) (h : dumps a ++ s = dumps b ++ t) : Same a b ∧ s = t := by
  have hb : lead b = none := by rw [← lead_eq h, ha]
  obtain ⟨hab, hst⟩ := atoms_split (dumps_atom ha).2 (dumps_atom hb).2 hs ht h
  exact ⟨atom_inj ha hb hab, hst⟩

/-- Members with equal keys and same values, pair by pair. -/
theorem members_same {xs ys : List (String × Json)}
    (h : List.Forall₂ (fun m n => m.1 = n.1 ∧ Same m.2 n.2) xs ys) :
    xs.map Prod.fst = ys.map Prod.fst ∧
      List.Forall₂ Same (xs.map Prod.snd) (ys.map Prod.snd) := by
  induction h with
  | nil => exact ⟨rfl, .nil⟩
  | cons hmn _ ih =>
    exact ⟨by rw [List.map_cons, List.map_cons, hmn.1, ih.1], .cons hmn.2 ih.2⟩

/-- **One reading.** A text followed by something that ends it determines the value,
up to member order, and what follows. -/
theorem dumps_split (a b : Json) {s t : List Char} (hs : Ends s) (ht : Ends t)
    (h : dumps a ++ s = dumps b ++ t) : Same a b ∧ s = t := by
  induction a using induct generalizing b s t with
  | null => exact atom_split hs ht rfl h
  | bool x => exact atom_split hs ht rfl h
  | int i => exact atom_split hs ht rfl h
  | float d => exact atom_split hs ht rfl h
  | str x =>
    have hlead := lead_eq h
    cases b with
    | str y =>
      rw [dumps_str, dumps_str] at h
      obtain ⟨rfl, hst⟩ := quote_split h
      exact ⟨.str x, hst⟩
    | _ => simp [lead] at hlead
  | arr xs ih =>
    have hlead := lead_eq h
    cases b with
    | arr ys =>
      simp only [dumps_arr, List.cons_append, List.append_assoc, List.cons.injEq, true_and,
        List.nil_append] at h
      have hstart : ∀ v, ∃ c l, dumps v = c :: l ∧ c ≠ ']' := fun v =>
        dumps_start v (by decide) (by cases v <;> simp [lead])
      obtain ⟨hall, hst⟩ := commaJoin_split (R := Same) (by decide) (by decide) hstart
        (fun x hx y _ s t hs ht hxy => ih x hx y hs ht hxy) h
      exact ⟨.arr hall, hst⟩
    | _ => simp [lead] at hlead
  | obj xs ih =>
    have hlead := lead_eq h
    cases b with
    | obj ys =>
      simp only [dumps_obj, List.cons_append, List.append_assoc, List.cons.injEq, true_and,
        List.nil_append] at h
      have hstart : ∀ m, ∃ c l, dumpsMember m = c :: l ∧ c ≠ '}' := fun m =>
        ⟨'"', _, rfl, by decide⟩
      obtain ⟨hall, hst⟩ := commaJoin_split (R := fun m n => m.1 = n.1 ∧ Same m.2 n.2)
        (by decide) (by decide) hstart
        (fun m hm n _ s t hs ht hmn => by
          simp only [dumpsMember, List.append_assoc, List.cons_append] at hmn
          obtain ⟨hkey, hvalue⟩ := quote_split hmn
          obtain ⟨hsame, hst⟩ := ih m ((sortMembers_perm xs).mem_iff.mp hm) n.2 hs ht
            (List.cons.inj hvalue).2
          exact ⟨⟨hkey, hsame⟩, hst⟩) h
      obtain ⟨hkeys, hvalues⟩ := members_same hall
      exact ⟨.obj (sortMembers_perm xs).symm (sortMembers_perm ys).symm hkeys hvalues, hst⟩
    | _ => simp [lead] at hlead

/-- **The canonical text determines the value**, up to member order. -/
theorem same_of_dumps_eq {a b : Json} (h : dumps a = dumps b) : Same a b := by
  have nothing : Ends [] := fun c hc => by simp at hc
  exact (dumps_split a b nothing nothing (by rw [List.append_nil, List.append_nil, h])).1

/-! ### One text for equal values -/

theorem sortMembers_sorted {β : Type*} (members : List (String × β)) :
    (sortMembers members).Pairwise (fun m n => m.1 ≤ n.1) := by
  have : Std.Total (fun m n : String × β => m.1 ≤ n.1) := ⟨fun m n => le_total m.1 n.1⟩
  have : IsTrans (String × β) (fun m n => m.1 ≤ n.1) := ⟨fun _ _ _ => le_trans⟩
  exact List.pairwise_insertionSort _ members

/-- The order of the members before sorting does not show, when keys do not repeat. -/
theorem sortMembers_congr {β : Type*} {l l' : List (String × β)} (h : l.Perm l')
    (hkeys : (l.map Prod.fst).Nodup) : sortMembers l = sortMembers l' := by
  refine List.Perm.eq_of_pairwise ?_ (sortMembers_sorted l) (sortMembers_sorted l')
    (((sortMembers_perm l).trans h).trans (sortMembers_perm l').symm)
  intro m n hm hn hmn hnm
  exact List.inj_on_of_nodup_map hkeys ((sortMembers_perm l).mem_iff.mp hm)
    (h.mem_iff.mpr ((sortMembers_perm l').mem_iff.mp hn)) (le_antisymm hmn hnm)

/-- Equal keys and equal texts of the values: equal members to write. -/
theorem dumpsMembers_congr {xs ys : List (String × Json)}
    (hkeys : xs.map Prod.fst = ys.map Prod.fst)
    (hvalues : (xs.map Prod.snd).map dumps = (ys.map Prod.snd).map dumps) :
    dumpsMembers xs = dumpsMembers ys := by
  induction xs generalizing ys with
  | nil =>
    cases ys with
    | nil => rfl
    | cons n ys => simp at hkeys
  | cons m xs ih =>
    cases ys with
    | nil => simp at hkeys
    | cons n ys =>
      simp only [List.map_cons, List.cons.injEq] at hkeys hvalues
      rw [dumpsMembers, dumpsMembers, ih hkeys.2 hvalues.2, hkeys.1, hvalues.1]

/-- Equal values have one canonical text, when no object repeats a key. -/
theorem dumps_eq_of_same {a b : Json} (h : Same a b) (ha : WellFormed a) (hb : WellFormed b) :
    dumps a = dumps b := by
  have lists : ∀ {xs ys : List Json}, (∀ x ∈ xs, ∀ y ∈ ys, Same x y → dumps x = dumps y) →
      List.Forall₂ Same xs ys → xs.map dumps = ys.map dumps := by
    intro xs ys heq hall
    induction hall with
    | nil => rfl
    | cons hxy _ ih =>
      rw [List.map_cons, List.map_cons, heq _ (by simp) _ (by simp) hxy,
        ih fun x hx y hy => heq x (by simp [hx]) y (by simp [hy])]
  induction a using induct generalizing b with
  | null => cases h; rfl
  | bool x => cases h; rfl
  | int i => cases h; rfl
  | float d =>
    cases h with
    | float h => rw [dumps_float, dumps_float, h]
  | str s => cases h; rfl
  | arr xs ih =>
    cases h with
    | arr hall =>
      rw [wellFormed_arr] at ha hb
      rw [dumps_arr, dumps_arr,
        lists (fun x hx y hy hxy => ih x hx hxy (ha x hx) (hb y hy)) hall]
  | obj xs ih =>
    cases h with
    | obj hx hy hkeys hvalues =>
      rename_i xs' ys ys'
      rw [wellFormed_obj] at ha hb
      have texts : (xs'.map Prod.snd).map dumps = (ys'.map Prod.snd).map dumps := by
        refine lists ?_ hvalues
        intro v hv w hw hvw
        obtain ⟨m, hm, rfl⟩ := List.mem_map.mp hv
        obtain ⟨n, hn, rfl⟩ := List.mem_map.mp hw
        exact ih m (hx.mem_iff.mpr hm) hvw (ha.2 m (hx.mem_iff.mpr hm)) (hb.2 n (hy.mem_iff.mpr hn))
      have sorted : ∀ {l l' : List (String × Json)}, l.Perm l' → (l.map Prod.fst).Nodup →
          sortMembers (dumpsMembers l) = sortMembers (dumpsMembers l') := by
        intro l l' hp hnodup
        rw [dumpsMembers_eq, dumpsMembers_eq]
        refine sortMembers_congr (hp.map _) ?_
        simpa [List.map_map, Function.comp_def] using hnodup
      rw [dumps, dumps, sorted hx ha.1, sorted hy hb.1, dumpsMembers_congr hkeys texts]

end Sentinel.Library.Json
