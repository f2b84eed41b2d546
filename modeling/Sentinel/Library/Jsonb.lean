import Sentinel.Library.JsonText

/-! What a `jsonb` column gives back for the JSON text Python wrote into it.

Objects keep their members but not their order (shorter keys first), strings and
integers come back as they were. Numbers are kept as decimal digits with a scale
and printed without an exponent, and Python reads a number without a fraction as
an integer: `1e+16` comes back as `10000000000000000`, `-0.0` as `0.0`. Every other
double prints with a fraction and reads back as itself. A NUL character, an
infinity or a not-a-number is refused. -/
namespace Sentinel.Library.Json

/-- The decimals after the point of the number PostgreSQL reads in `repr d`. -/
def scale (d : Decimal) : Nat :=
  if d.exponent < 0 then d.exponent.natAbs
  else if Double.scientificRange (Double.point d) then 0 else 1

/-- The double zero. -/
def positiveZero : Decimal := ⟨false, 0, 0, .inr ⟨rfl, rfl⟩, by decide⟩

/-- The value as an integer, when the exponent is not negative. -/
def integral (d : Decimal) : Int :=
  (if d.negative then -1 else 1) * (d.digits * 10 ^ d.exponent.toNat : Nat)

/-- What `repr d`, stored and printed again, reads back as. -/
def reloadDouble : Double → Json
  | .finite d =>
    if d.digits = 0 then .float (.finite positiveZero)
    else if scale d = 0 then .int (integral d)
    else .float (.finite d)
  | other => .float other

/-- The order of members in a stored object: by length in bytes, then by bytes. -/
def storedBefore (k l : String) : Prop :=
  (k.toList.map Char.utf8Size).sum < (l.toList.map Char.utf8Size).sum ∨
    (k.toList.map Char.utf8Size).sum = (l.toList.map Char.utf8Size).sum ∧ k ≤ l

instance : DecidableRel storedBefore := fun k l => by unfold storedBefore; infer_instance

mutual
/-- What a `jsonb` column gives back for the value. -/
def reload : Json → Json
  | .float d => reloadDouble d
  | .arr items => .arr (reloadItems items)
  | .obj members =>
    .obj ((reloadMembers members).insertionSort (fun m n => storedBefore m.1 n.1))
  | other => other

def reloadItems : List Json → List Json
  | [] => []
  | v :: rest => reload v :: reloadItems rest

def reloadMembers : List (String × Json) → List (String × Json)
  | [] => []
  | (key, v) :: rest => (key, reload v) :: reloadMembers rest
end

/-- No NUL character. -/
def storableText (s : String) : Bool := s.toList.all (· != '\x00')

mutual
/-- The values a `jsonb` column takes. -/
def storable : Json → Bool
  | .float (.finite _) => true
  | .float _ => false
  | .str s => storableText s
  | .arr items => storableItems items
  | .obj members => storableMembers members
  | _ => true

def storableItems : List Json → Bool
  | [] => true
  | v :: rest => storable v && storableItems rest

def storableMembers : List (String × Json) → Bool
  | [] => true
  | (key, v) :: rest => storableText key && storable v && storableMembers rest
end

theorem reloadItems_eq (items : List Json) : reloadItems items = items.map reload := by
  induction items with
  | nil => rfl
  | cons v rest ih => simp [reloadItems, ih]

theorem reloadMembers_eq (members : List (String × Json)) :
    reloadMembers members = members.map (fun m => (m.1, reload m.2)) := by
  induction members with
  | nil => rfl
  | cons m rest ih => simp [reloadMembers, ih]

theorem reload_arr (items : List Json) : reload (.arr items) = .arr (items.map reload) := by
  rw [reload, reloadItems_eq]

/-- The members of a reloaded object, each reloaded. -/
theorem reload_obj (members : List (String × Json)) : ∃ stored, reload (.obj members) = .obj stored ∧
    stored.Perm (members.map (fun m => (m.1, reload m.2))) := by
  refine ⟨_, by rw [reload], ?_⟩
  rw [reloadMembers_eq]
  exact List.perm_insertionSort _ _

theorem reload_obj_keys {members stored : List (String × Json)}
    (h : stored.Perm (members.map (fun m => (m.1, reload m.2)))) :
    (stored.map Prod.fst).Perm (members.map Prod.fst) := by
  simpa [List.map_map, Function.comp_def] using h.map Prod.fst

theorem wellFormed_reload {v : Json} (h : WellFormed v) : WellFormed (reload v) := by
  induction v using induct with
  | arr items ih =>
    rw [wellFormed_arr] at h
    rw [reload_arr, wellFormed_arr]
    intro w hw
    obtain ⟨v, hv, rfl⟩ := List.mem_map.mp hw
    exact ih v hv (h v hv)
  | obj members ih =>
    rw [wellFormed_obj] at h
    obtain ⟨stored, heq, hperm⟩ := reload_obj members
    rw [heq, wellFormed_obj]
    refine ⟨(reload_obj_keys hperm).nodup_iff.mpr h.1, fun m hm => ?_⟩
    obtain ⟨n, hn, rfl⟩ := List.mem_map.mp (hperm.mem_iff.mp hm)
    exact ih n hn (h.2 n hn)
  | float d =>
    rw [reload]
    unfold reloadDouble
    split
    · split_ifs <;> simp [WellFormed]
    · simp [WellFormed]
  | _ => simpa [reload] using h

theorem storedBefore_total (k l : String) : storedBefore k l ∨ storedBefore l k := by
  unfold storedBefore
  rcases lt_trichotomy (k.toList.map Char.utf8Size).sum (l.toList.map Char.utf8Size).sum with hlt | heq | hgt
  · exact .inl (.inl hlt)
  · exact (le_total k l).imp (fun h => .inr ⟨heq, h⟩) fun h => .inr ⟨heq.symm, h⟩
  · exact .inr (.inl hgt)

theorem storedBefore_trans {k l m : String} (hkl : storedBefore k l) (hlm : storedBefore l m) : storedBefore k m := by
  unfold storedBefore at *
  rcases hkl with hkl | ⟨hkl, hk⟩
  · rcases hlm with hlm | ⟨hlm, -⟩
    · exact .inl (hkl.trans hlm)
    · exact .inl (hkl.trans_eq hlm)
  · rcases hlm with hlm | ⟨hlm, hl⟩
    · exact .inl (hkl.trans_lt hlm)
    · exact .inr ⟨hkl.trans hlm, hk.trans hl⟩

theorem reload_reloadDouble (d : Double) : reload (reloadDouble d) = reloadDouble d := by
  cases d with
  | finite d =>
    show reload (if _ then _ else if _ then _ else _) = (if _ then _ else if _ then _ else _)
    by_cases hzero : d.digits = 0
    · rw [if_pos hzero]
      rfl
    · rw [if_neg hzero]
      by_cases hscale : scale d = 0
      · rw [if_pos hscale]
        rfl
      · rw [if_neg hscale, reload]
        show (if _ then _ else if _ then _ else _) = _
        rw [if_neg hzero, if_neg hscale]
  | infinity negative => rfl
  | nan => rfl

/-- What a column gives back, it gives back again. -/
theorem reload_reload (v : Json) : reload (reload v) = reload v := by
  induction v using induct with
  | float d =>
    rw [reload]
    exact reload_reloadDouble d
  | arr items ih =>
    rw [reload_arr, reload_arr, List.map_map]
    congr 1
    exact List.map_congr_left ih
  | obj members ih =>
    have hmembers : ∀ m ∈ (reloadMembers members).insertionSort (fun m n => storedBefore m.1 n.1),
        (m.1, reload m.2) = m := by
      intro m hm
      rw [List.mem_insertionSort, reloadMembers_eq] at hm
      obtain ⟨n, hn, rfl⟩ := List.mem_map.mp hm
      exact Prod.ext rfl (ih n hn)
    have hsame : reloadMembers ((reloadMembers members).insertionSort fun m n => storedBefore m.1 n.1) =
        (reloadMembers members).insertionSort fun m n => storedBefore m.1 n.1 := by
      rw [reloadMembers_eq (List.insertionSort _ _), List.map_congr_left hmembers, List.map_id']
    have : Std.Total fun m n : String × Json => storedBefore m.1 n.1 := ⟨fun m n => storedBefore_total m.1 n.1⟩
    have : IsTrans (String × Json) fun m n => storedBefore m.1 n.1 := ⟨fun _ _ _ => storedBefore_trans⟩
    rw [reload, reload, hsame, (List.pairwise_insertionSort _ _).insertionSort_eq]
  | _ => rfl

/-- What a `jsonb` column gives back for an object. -/
def Object.reload (o : Object) : Object where
  members := (reloadMembers o.members).insertionSort (fun m n => storedBefore m.1 n.1)
  wellFormed := by
    have h := wellFormed_reload o.wellFormed
    rwa [Json.reload] at h

theorem Object.reload_json (o : Object) : o.reload.json = Json.reload o.json := by
  unfold Object.json
  rw [Json.reload]
  rfl

/-! ### Which values come back as they were -/

/-- A double that prints as it did: not negative zero, and below `1e16`. -/
def Double.Kept : Double → Prop
  | .finite d => ¬ (d.digits = 0 ∧ d.negative) ∧ ¬ 16 < Double.point d
  | _ => True

instance : DecidablePred Double.Kept := fun d => by unfold Double.Kept; cases d <;> infer_instance

/-- Every double in the value is kept. -/
def Kept : Json → Prop
  | .float d => Double.Kept d
  | .arr items => ∀ v ∈ items, Kept v
  | .obj members => ∀ m ∈ members, Kept m.2
  | _ => True
termination_by v => sizeOf v
decreasing_by
  · have := List.sizeOf_lt_of_mem ‹_ ∈ _›
    simp only [Json.arr.sizeOf_spec]
    omega
  · rename_i hm
    have := List.sizeOf_lt_of_mem hm
    have : sizeOf m.2 < sizeOf m := by cases m; simp
    simp only [Json.obj.sizeOf_spec]
    omega

@[simp] theorem kept_float (d : Double) : Kept (.float d) ↔ Double.Kept d := by rw [Kept]
@[simp] theorem kept_arr (items : List Json) : Kept (.arr items) ↔ ∀ v ∈ items, Kept v := by
  rw [Kept]
@[simp] theorem kept_obj (members : List (String × Json)) :
    Kept (.obj members) ↔ ∀ m ∈ members, Kept m.2 := by
  rw [Kept]

/-- The scale is zero exactly from `1e16` on. -/
theorem scale_eq_zero (d : Decimal) : scale d = 0 ↔ 16 < Double.point d := by
  have hlen : (Nat.toDigits 10 d.digits).length ≤ 17 :=
    (Nat.length_toDigits_le_iff (by decide) (by decide)).mpr d.short
  have hpos : 0 < (Nat.toDigits 10 d.digits).length := Nat.length_toDigits_pos
  have hrange : Double.scientificRange (Double.point d) = true ↔
      Double.point d ≤ -4 ∨ 16 < Double.point d := by
    simp [Double.scientificRange]
  have hpoint : Double.point d = (Nat.toDigits 10 d.digits).length + d.exponent := rfl
  unfold scale
  split_ifs with hneg hsci
  · omega
  · rw [hrange] at hsci
    omega
  · rw [hrange] at hsci
    exact ⟨fun h => absurd h (by decide), fun h => absurd (.inr h) hsci⟩

/-- An integer is never the double it replaces: their texts differ. -/
theorem Same.not_int_float {i : Int} {d : Double} : ¬ Same (.float d) (.int i) := by
  intro h
  cases h

theorem same_reloadDouble (d : Double) : Same (.float d) (reloadDouble d) ↔ Double.Kept d := by
  cases d with
  | finite d =>
    simp only [reloadDouble, Double.Kept, scale_eq_zero]
    split_ifs with hzero hscale
    · -- Zero: only the sign can be lost.
      have hpoint : ¬ 16 < Double.point d := by
        rcases d.normal with h | ⟨-, h⟩
        · simp [hzero] at h
        · simp [Double.point, hzero, h]
      refine ⟨?_, ?_⟩
      · intro h
        refine ⟨?_, hpoint⟩
        rintro ⟨-, hneg⟩
        cases h with
        | float h =>
          have hexp : d.exponent = 0 := by
            rcases d.normal with h | ⟨-, h⟩
            · simp [hzero] at h
            · exact h
          simp only [Double.repr, Double.point, hzero, hexp, hneg, positiveZero] at h
          revert h
          decide
      · rintro ⟨hneg, -⟩
        have hd : d = positiveZero := by
          obtain ⟨negative, digits, exponent, normal, short⟩ := d
          simp only at hzero hneg
          subst hzero
          have hexp : exponent = 0 := by simpa using normal
          subst hexp
          have : negative = false := by simpa using hneg
          subst this
          rfl
        rw [hd]
        exact Same.refl _
    · exact ⟨fun h => absurd h Same.not_int_float, fun h => absurd hscale h.2⟩
    · exact ⟨fun _ => ⟨fun h => hzero h.1, hscale⟩, fun _ => Same.refl _⟩
  | infinity negative => exact ⟨fun _ => trivial, fun _ => Same.refl _⟩
  | nan => exact ⟨fun _ => trivial, fun _ => Same.refl _⟩

theorem forall₂_map_reload {items : List Json} :
    List.Forall₂ Same items (items.map reload) ↔ ∀ v ∈ items, Same v (reload v) := by
  rw [List.forall₂_map_right_iff, List.forall₂_same]

/-- **What a `jsonb` column gives back is the value written** exactly when every double
in it is kept. -/
theorem same_reload_iff {v : Json} (h : WellFormed v) : Same v (reload v) ↔ Kept v := by
  induction v using induct with
  | float d => rw [reload, kept_float]; exact same_reloadDouble d
  | arr items ih =>
    rw [wellFormed_arr] at h
    rw [reload_arr, kept_arr]
    refine ⟨?_, ?_⟩
    · intro hsame v hv
      cases hsame with
      | arr hall => exact (ih v hv (h v hv)).mp (forall₂_map_reload.mp hall v hv)
    · intro hkept
      exact .arr (forall₂_map_reload.mpr fun v hv => (ih v hv (h v hv)).mpr (hkept v hv))
  | obj members ih =>
    rw [wellFormed_obj] at h
    obtain ⟨stored, heq, hperm⟩ := reload_obj members
    rw [heq, kept_obj]
    refine ⟨?_, ?_⟩
    · intro hsame m hm
      have hkeys := (reload_obj_keys hperm).nodup_iff.mpr h.1
      have hmem : (m.1, reload m.2) ∈ stored := hperm.mem_iff.mpr (List.mem_map.mpr ⟨m, hm, rfl⟩)
      exact (ih m hm (h.2 m hm)).mp (hsame.member hkeys hm hmem)
    · intro hkept
      refine .obj (.refl _) hperm (by simp [List.map_map, Function.comp_def]) ?_
      rw [List.map_map, List.forall₂_map_left_iff, List.forall₂_map_right_iff, List.forall₂_same]
      exact fun m hm => (ih m hm (h.2 m hm)).mpr (hkept m hm)
  | _ => exact ⟨fun _ => by simp [Kept], fun _ => by rw [reload] <;> first | exact Same.refl _ | simp⟩

end Sentinel.Library.Json
