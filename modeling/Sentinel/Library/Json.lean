import Sentinel.Library.Digits

/-! JSON values and the text `json.dumps(value, sort_keys=True, separators=(",", ":"))`
gives them: ASCII only, keys in code point order, no white space.

A double is known here by its shortest decimal digits, which is what `repr` prints
and all the text depends on; the sign of zero, the infinities and not-a-number are
kept apart as `repr` keeps them. Values are compared up to the order of object
members (`Same`), at every depth, with integers, doubles and booleans apart. -/
namespace Sentinel.Library

/-- A finite double by its shortest decimal: `± digits · 10 ^ exponent`, at most
seventeen digits and no trailing zero. -/
structure Decimal where
  negative : Bool
  digits : Nat
  exponent : Int
  normal : digits % 10 ≠ 0 ∨ digits = 0 ∧ exponent = 0
  short : digits < 10 ^ 17
  deriving DecidableEq

/-- `1e<exponent>`. -/
def Decimal.powerOfTen (exponent : Int) : Decimal := ⟨false, 1, exponent, .inl (by decide), by decide⟩

inductive Double where
  | finite (value : Decimal)
  | infinity (negative : Bool)
  | nan
  deriving DecidableEq

namespace Double

def signText (negative : Bool) : List Char := if negative then ['-'] else []

/-- Positional notation: `point` digits stand before the decimal point. -/
def positional (ds : List Char) (point : Int) : List Char :=
  if point ≤ 0 then '0' :: '.' :: (List.replicate (-point).toNat '0' ++ ds)
  else if ds.length ≤ point.toNat then
    ds ++ List.replicate (point.toNat - ds.length) '0' ++ ['.', '0']
  else ds.take point.toNat ++ '.' :: ds.drop point.toNat

/-- Scientific notation: one digit before the point, two exponent digits at least. -/
def scientific (ds : List Char) (point : Int) : List Char :=
  let e := point - 1
  let exponent := Nat.toDigits 10 e.natAbs
  ds.take 1 ++ (if ds.length ≤ 1 then [] else '.' :: ds.drop 1) ++
    'e' :: (if e < 0 then '-' else '+') :: (if exponent.length < 2 then '0' :: exponent else exponent)

/-- Where the decimal point stands among the digits. -/
def point (d : Decimal) : Int := (Nat.toDigits 10 d.digits).length + d.exponent

/-- `repr` leaves positional notation below `1e-4` and from `1e16` on. -/
def scientificRange (p : Int) : Bool := p ≤ -4 || 16 < p

/-- `float.__repr__`, with the spellings `json` uses for the values JSON does not have. -/
def repr : Double → List Char
  | .finite d => signText d.negative ++
      if scientificRange (point d) then scientific (Nat.toDigits 10 d.digits) (point d)
      else positional (Nat.toDigits 10 d.digits) (point d)
  | .infinity negative => signText negative ++ "Infinity".toList
  | .nan => "NaN".toList

end Double

inductive Json where
  | null
  | bool (value : Bool)
  | int (value : Int)
  | float (value : Double)
  | str (value : String)
  | arr (items : List Json)
  | obj (members : List (String × Json))

namespace Json

/-- Induction with every item and every member value as a hypothesis. -/
@[elab_as_elim]
theorem induct {motive : Json → Prop} (null : motive .null) (bool : ∀ b, motive (.bool b))
    (int : ∀ i, motive (.int i)) (float : ∀ d, motive (.float d)) (str : ∀ s, motive (.str s))
    (arr : ∀ items, (∀ v ∈ items, motive v) → motive (.arr items))
    (obj : ∀ members, (∀ m ∈ members, motive m.2) → motive (.obj members)) :
    ∀ v, motive v
  | .null => null
  | .bool b => bool b
  | .int i => int i
  | .float d => float d
  | .str s => str s
  | .arr items => arr items fun v _ => induct null bool int float str arr obj v
  | .obj members => obj members fun m hm =>
      have := List.sizeOf_lt_of_mem hm
      have : sizeOf m.2 < sizeOf m := by cases m; simp
      induct null bool int float str arr obj m.2
termination_by v => sizeOf v

/-! ### Equality up to member order -/

/-- Equal JSON values, objects up to the order of their members, doubles by `repr`. -/
inductive Same : Json → Json → Prop
  | null : Same .null .null
  | bool (b : Bool) : Same (.bool b) (.bool b)
  | int (i : Int) : Same (.int i) (.int i)
  | float {x y : Double} : x.repr = y.repr → Same (.float x) (.float y)
  | str (s : String) : Same (.str s) (.str s)
  | arr {xs ys : List Json} : List.Forall₂ Same xs ys → Same (.arr xs) (.arr ys)
  | obj {xs xs' ys ys' : List (String × Json)} : xs.Perm xs' → ys.Perm ys' →
      xs'.map Prod.fst = ys'.map Prod.fst →
      List.Forall₂ Same (xs'.map Prod.snd) (ys'.map Prod.snd) → Same (.obj xs) (.obj ys)

/-- No object repeats a key, at any depth: what a Python `dict` guarantees. -/
def WellFormed : Json → Prop
  | .arr items => ∀ v ∈ items, WellFormed v
  | .obj members => (members.map Prod.fst).Nodup ∧ ∀ m ∈ members, WellFormed m.2
  | _ => True
termination_by v => sizeOf v
decreasing_by
  · have := List.sizeOf_lt_of_mem ‹_ ∈ _›
    simp only [Json.arr.sizeOf_spec]
    omega
  · rename_i hm
    have := List.sizeOf_lt_of_mem hm
    have : sizeOf m.2 < sizeOf m := by cases m; simp
    simp only [Json.obj.sizeOf_spec]
    omega

@[simp] theorem wellFormed_arr (items : List Json) :
    WellFormed (.arr items) ↔ ∀ v ∈ items, WellFormed v := by
  rw [WellFormed]

@[simp] theorem wellFormed_obj (members : List (String × Json)) :
    WellFormed (.obj members) ↔
      (members.map Prod.fst).Nodup ∧ ∀ m ∈ members, WellFormed m.2 := by
  rw [WellFormed]

theorem wellFormed_empty : WellFormed (.obj []) := by
  simp

mutual
def wellFormed : Json → Bool
  | .arr items => wellFormedItems items
  | .obj members => decide (members.map Prod.fst).Nodup && wellFormedMembers members
  | _ => true

def wellFormedItems : List Json → Bool
  | [] => true
  | v :: rest => wellFormed v && wellFormedItems rest

def wellFormedMembers : List (String × Json) → Bool
  | [] => true
  | (_, v) :: rest => wellFormed v && wellFormedMembers rest
end

theorem wellFormedItems_iff {items : List Json} : wellFormedItems items ↔ ∀ v ∈ items, wellFormed v := by
  induction items with
  | nil => simp [wellFormedItems]
  | cons v rest ih => simp [wellFormedItems, ih]

theorem wellFormedMembers_iff {members : List (String × Json)} :
    wellFormedMembers members ↔ ∀ m ∈ members, wellFormed m.2 := by
  induction members with
  | nil => simp [wellFormedMembers]
  | cons m rest ih => simp [wellFormedMembers, ih]

theorem wellFormed_iff {v : Json} : wellFormed v ↔ WellFormed v := by
  induction v using induct with
  | arr items ih =>
    rw [wellFormed, wellFormedItems_iff, wellFormed_arr]
    exact forall₂_congr ih
  | obj members ih =>
    rw [wellFormed, Bool.and_eq_true, decide_eq_true_iff, wellFormedMembers_iff, wellFormed_obj]
    exact and_congr_right fun _ => forall₂_congr ih
  | _ => simp [wellFormed, WellFormed]

instance : DecidablePred WellFormed := fun _ => decidable_of_iff _ wellFormed_iff

theorem Same.refl (v : Json) : Same v v := by
  induction v using induct with
  | null => exact .null
  | bool b => exact .bool b
  | int i => exact .int i
  | float d => exact .float rfl
  | str s => exact .str s
  | arr items ih => exact .arr (List.forall₂_same.mpr ih)
  | obj members ih =>
    refine .obj (.refl _) (.refl _) rfl (List.forall₂_same.mpr ?_)
    intro v hv
    obtain ⟨m, hm, rfl⟩ := List.mem_map.mp hv
    exact ih m hm

/-- Members of the same key have the same value, when keys do not repeat. -/
theorem Same.member {xs ys : List (String × Json)} (h : Same (.obj xs) (.obj ys))
    (hkeys : (ys.map Prod.fst).Nodup) {key : String} {v w : Json} (hv : (key, v) ∈ xs)
    (hw : (key, w) ∈ ys) : Same v w := by
  cases h with
  | obj hx hy hfst hsnd =>
    rename_i xs' ys'
    obtain ⟨i, hi⟩ := List.mem_iff_getElem?.mp (hx.mem_iff.mp hv)
    obtain ⟨j, hj⟩ := List.mem_iff_getElem?.mp (hy.mem_iff.mp hw)
    have hkeys' : (ys'.map Prod.fst).Nodup := (hy.map Prod.fst).nodup_iff.mp hkeys
    have hkey : (ys'.map Prod.fst)[i]? = some key := by
      rw [← hfst]
      simp [hi]
    have hij : i = j := by
      have hlt : i < (ys'.map Prod.fst).length := (List.getElem?_eq_some_iff.mp hkey).1
      exact (List.getElem?_inj hlt hkeys').mp (by rw [hkey]; simp [hj])
    subst hij
    obtain ⟨hlt, hxi⟩ := List.getElem?_eq_some_iff.mp hi
    obtain ⟨hlt', hyi⟩ := List.getElem?_eq_some_iff.mp hj
    have hget := (List.forall₂_iff_get.mp hsnd).2 i (by simpa using hlt) (by simpa using hlt')
    simpa [hxi, hyi] using hget

/-- An object as a Python `dict` holds it. -/
structure Object where
  members : List (String × Json)
  wellFormed : WellFormed (.obj members)

def Object.json (o : Object) : Json := .obj o.members

/-- `o.get(key)`. -/
def Object.get (o : Object) (key : String) : Option Json := o.members.lookup key

theorem Object.wellFormed_json (o : Object) : WellFormed o.json := o.wellFormed

theorem Same.str_inj {s t : String} (h : Same (.str s) (.str t)) : s = t := by
  cases h
  rfl

/-- A text or `null`. -/
def textOrNull : Option String → Json
  | none => .null
  | some s => .str s

theorem Same.textOrNull_inj {s t : Option String} (h : Same (textOrNull s) (textOrNull t)) :
    s = t := by
  cases s <;> cases t <;> cases h <;> rfl

/-! ### The canonical text -/

/-- `ESCAPE_DCT`: the characters with a two-character escape. -/
def shortEscape (c : Char) : Option Char :=
  if c = '"' then some '"' else if c = '\\' then some '\\' else if c = '\n' then some 'n'
  else if c = '\r' then some 'r' else if c = '\t' then some 't'
  else if c = '\x0c' then some 'f' else if c = '\x08' then some 'b' else none

def unicodeEscape (n : Nat) : List Char := '\\' :: 'u' :: Digits.fixed 16 4 n

/-- `ensure_ascii`: printable ASCII as it is, anything else escaped, characters beyond
the basic plane as a surrogate pair. -/
def escapeChar (c : Char) : List Char :=
  match shortEscape c with
  | some e => ['\\', e]
  | none =>
    if 0x20 ≤ c.toNat ∧ c.toNat ≤ 0x7e then [c]
    else if c.toNat < 0x10000 then unicodeEscape c.toNat
    else unicodeEscape (0xd800 + (c.toNat - 0x10000) / 0x400) ++
      unicodeEscape (0xdc00 + (c.toNat - 0x10000) % 0x400)

def quote (s : String) : List Char := '"' :: (s.toList.flatMap escapeChar ++ ['"'])

/-- `",".join(items)`. -/
def commaJoin : List (List Char) → List Char
  | [] => []
  | [x] => x
  | x :: rest => x ++ ',' :: commaJoin rest

/-- `sorted(members)` by key: keys are compared by code points. -/
def sortMembers {β : Type*} (members : List (String × β)) : List (String × β) :=
  members.insertionSort (fun m n => m.1 ≤ n.1)

/-- `int.__repr__`. -/
def intText (i : Int) : List Char := Double.signText (i < 0) ++ Nat.toDigits 10 i.natAbs

def memberText (m : String × List Char) : List Char := quote m.1 ++ ':' :: m.2

mutual
/-- `json.dumps(value, sort_keys=True, separators=(",", ":"))`. -/
def dumps : Json → List Char
  | .null => "null".toList
  | .bool true => "true".toList
  | .bool false => "false".toList
  | .int i => intText i
  | .float d => d.repr
  | .str s => quote s
  | .arr items => '[' :: (commaJoin (dumpsItems items) ++ [']'])
  | .obj members => '{' :: (commaJoin ((sortMembers (dumpsMembers members)).map memberText) ++ ['}'])

def dumpsItems : List Json → List (List Char)
  | [] => []
  | v :: rest => dumps v :: dumpsItems rest

def dumpsMembers : List (String × Json) → List (String × List Char)
  | [] => []
  | (key, v) :: rest => (key, dumps v) :: dumpsMembers rest
end

theorem dumpsItems_eq (items : List Json) : dumpsItems items = items.map dumps := by
  induction items with
  | nil => rfl
  | cons v rest ih => simp [dumpsItems, ih]

theorem dumpsMembers_eq (members : List (String × Json)) :
    dumpsMembers members = members.map (fun m => (m.1, dumps m.2)) := by
  induction members with
  | nil => rfl
  | cons m rest ih => simp [dumpsMembers, ih]

/-- The text of one member of an object. -/
def dumpsMember (m : String × Json) : List Char := quote m.1 ++ ':' :: dumps m.2

/-- Sorting before or after the values are written is the same. -/
theorem dumps_obj (members : List (String × Json)) :
    dumps (.obj members) = '{' :: (commaJoin ((sortMembers members).map dumpsMember) ++ ['}']) := by
  have hsort : sortMembers (dumpsMembers members) =
      (sortMembers members).map (fun m => (m.1, dumps m.2)) := by
    rw [dumpsMembers_eq]
    exact (List.map_insertionSort (fun m n : String × Json => m.1 ≤ n.1)
      (fun m n : String × List Char => m.1 ≤ n.1) (fun m => (m.1, dumps m.2)) members
      fun _ _ _ _ => Iff.rfl).symm
  rw [dumps, hsort, List.map_map]
  rfl

theorem dumps_arr (items : List Json) :
    dumps (.arr items) = '[' :: (commaJoin (items.map dumps) ++ [']']) := by
  rw [dumps, dumpsItems_eq]

theorem sortMembers_perm {β : Type*} (members : List (String × β)) :
    (sortMembers members).Perm members :=
  List.perm_insertionSort _ _

example : dumps (.obj [("b", .arr [.int (-7), .null]), ("a", .str "é\n")]) =
    "\x7b\"a\":\"\\u00e9\\n\",\"b\":[-7,null]\x7d".toList := by decide

end Json
end Sentinel.Library
