import Mathlib

/-! The scheme and the network location of a URL, as Python's `urlparse` splits them.

What Python checks of a network location depends on its version (the address in brackets,
characters that normalise to separators) and is a parameter: a URL it refuses is none. The
URL of a page gives its origin back whatever follows the origin (`urlparse_origin`). -/
namespace Sentinel.Library.Url

/-- C0 control characters and the space. -/
def control (c : Char) : Bool := c.toNat ≤ 32

def removed (c : Char) : Bool := c = '\t' || c = '\r' || c = '\n'

def schemeChar (c : Char) : Bool := c.isAlphanum || c = '+' || c = '-' || c = '.'

/-- What ends a network location. -/
def delimiter (c : Char) : Bool := c = '/' || c = '?' || c = '#'

/-- The scheme in lower case, and the rest; without one, everything. -/
def splitScheme (url : List Char) : List Char × List Char :=
  let name := url.takeWhile (· ≠ ':')
  if name.length < url.length && name.head?.any Char.isAlpha && name.all schemeChar then
    (name.map Char.toLower, url.drop (name.length + 1))
  else ([], url)

def splitNetloc : List Char → List Char
  | '/' :: '/' :: rest => rest.takeWhile fun c => !delimiter c
  | _ => []

/-- `scheme` and `netloc` of `urlparse(url)`. -/
def urlparse (check : List Char → Bool) (url : List Char) : Option (List Char × List Char) :=
  let (scheme, rest) := splitScheme ((url.dropWhile control).filter fun c => !removed c)
  if check (splitNetloc rest) then some (scheme, splitNetloc rest) else none

/-- `scheme://netloc`, in the form a browser writes it. -/
structure Origin where
  scheme : List Char
  netloc : List Char
  letter : scheme.head?.any Char.isAlpha = true
  written : scheme.all (fun c => schemeChar c && c.toLower = c) = true
  located : netloc ≠ []
  plain : netloc.all (fun c => !delimiter c && !removed c) = true

def Origin.text (o : Origin) : List Char := o.scheme ++ ':' :: '/' :: '/' :: o.netloc

/-! ### An origin is found again -/

theorem lt_of_schemeChar {c : Char} (h : schemeChar c) : 32 < c.toNat := by
  simp only [schemeChar, Char.isAlphanum, Char.isAlpha, Char.isUpper, Char.isLower, Char.isDigit, Bool.or_eq_true,
    Bool.and_eq_true, decide_eq_true_eq, ge_iff_le, UInt32.le_iff_toNat_le] at h
  rcases h with (((((h | h) | h) | rfl) | rfl) | rfl)
  · exact Nat.lt_of_lt_of_le (by decide) h.1
  · exact Nat.lt_of_lt_of_le (by decide) h.1
  · exact Nat.lt_of_lt_of_le (by decide) h.1
  all_goals decide

theorem removed_eq_false {c : Char} (h : 32 < c.toNat) : removed c = false := by
  have hne : c ≠ '\t' ∧ c ≠ '\r' ∧ c ≠ '\n' := by
    refine ⟨?_, ?_, ?_⟩ <;> rintro rfl <;> exact absurd h (by decide)
  simp [removed, hne]

theorem ne_colon_of_schemeChar {c : Char} (h : schemeChar c) : c ≠ ':' := by
  rintro rfl
  exact absurd h (by decide)

section Parse
variable {o : Origin} {rest : List Char}

theorem Origin.schemeChar (o : Origin) {c : Char} (h : c ∈ o.scheme) : schemeChar c ∧ c.toLower = c := by
  simpa using List.all_eq_true.mp o.written c h

theorem Origin.netlocChar (o : Origin) {c : Char} (h : c ∈ o.netloc) : delimiter c = false ∧ removed c = false := by
  simpa using List.all_eq_true.mp o.plain c h

/-- Cleaning leaves the origin. -/
theorem clean_origin (o : Origin) (rest : List Char) :
    ((o.text ++ rest).dropWhile control).filter (fun c => !removed c) =
      o.text ++ rest.filter fun c => !removed c := by
  obtain ⟨first, name, hname⟩ : ∃ first name, o.scheme = first :: name := by
    cases hscheme : o.scheme with
    | nil => exact absurd o.letter (by simp [hscheme])
    | cons first name => exact ⟨first, name, rfl⟩
  have hfirst : control first = false := by
    have := lt_of_schemeChar (o.schemeChar (c := first) (by simp [hname])).1
    simpa [control] using this
  have htext : o.text.filter (fun c => !removed c) = o.text := by
    refine List.filter_eq_self.mpr fun c hc => ?_
    rcases List.mem_append.mp hc with hc | hc
    · simp [removed_eq_false (lt_of_schemeChar (o.schemeChar hc).1)]
    · rcases List.mem_cons.mp hc with rfl | hc
      · decide
      rcases List.mem_cons.mp hc with rfl | hc
      · decide
      rcases List.mem_cons.mp hc with rfl | hc
      · decide
      simp [(o.netlocChar hc).2]
  have hdrop : (o.text ++ rest).dropWhile control = o.text ++ rest := by
    simp [Origin.text, hname, hfirst]
  rw [hdrop, List.filter_append, htext]

theorem splitScheme_origin (o : Origin) (rest : List Char) :
    splitScheme (o.text ++ rest) = (o.scheme, '/' :: '/' :: o.netloc ++ rest) := by
  have hname : (o.text ++ rest).takeWhile (· ≠ ':') = o.scheme := by
    have hall : ∀ c ∈ o.scheme, decide (c ≠ ':') = true := fun c hc =>
      decide_eq_true (ne_colon_of_schemeChar (o.schemeChar hc).1)
    rw [Origin.text, List.append_assoc, List.takeWhile_append_of_pos hall]
    simp
  have hlength : o.scheme.length < (o.text ++ rest).length := by simp [Origin.text]
  have hlower : o.scheme.map Char.toLower = o.scheme :=
    (List.map_congr_left (g := id) fun c hc => (o.schemeChar hc).2).trans (List.map_id _)
  have hscheme : o.scheme.all schemeChar = true := List.all_eq_true.mpr fun c hc => (o.schemeChar hc).1
  have hdrop : (o.text ++ rest).drop (o.scheme.length + 1) = '/' :: '/' :: o.netloc ++ rest := by
    simp [Origin.text, List.drop_append]
  simp only [splitScheme, hname, hdrop, hlower]
  rw [if_pos (by simp only [hlength, o.letter, hscheme, decide_true, Bool.and_true])]

theorem splitNetloc_origin (o : Origin) (hrest : rest = [] ∨ rest.head?.any delimiter) :
    splitNetloc ('/' :: '/' :: o.netloc ++ rest) = o.netloc := by
  have hall : ∀ c ∈ o.netloc, (!delimiter c) = true := fun c hc => by simp [(o.netlocChar hc).1]
  show (o.netloc ++ rest).takeWhile (fun c => !delimiter c) = o.netloc
  rw [List.takeWhile_append_of_pos hall]
  rcases hrest with rfl | hrest
  · simp
  · cases rest with
    | nil => simp
    | cons c rest => simpa using hrest

/-- **The URL of a page gives its origin back**, whatever path follows. -/
theorem urlparse_origin (check : List Char → Bool) (o : Origin) (hrest : rest = [] ∨ rest.head?.any delimiter) :
    urlparse check (o.text ++ rest) = if check o.netloc then some (o.scheme, o.netloc) else none := by
  have hclean : rest.filter (fun c => !removed c) = [] ∨ (rest.filter fun c => !removed c).head?.any delimiter := by
    rcases hrest with rfl | hrest
    · exact .inl rfl
    · cases rest with
      | nil => exact .inl rfl
      | cons c rest =>
        have hc : delimiter c = true := by simpa using hrest
        have hkept : removed c = false := by
          simp only [delimiter, Bool.or_eq_true, decide_eq_true_eq] at hc
          rcases hc with (rfl | rfl) | rfl <;> decide
        exact .inr (by simp [hkept, hc])
  rw [urlparse, clean_origin, splitScheme_origin]
  simp only [splitNetloc_origin o hclean]

end Parse

end Sentinel.Library.Url
