import Sentinel.Library.Digits

/-! UUIDs: 128 bits, written as thirty-two hexadecimal digits in five groups. -/
namespace Sentinel.Library

abbrev Uuid := BitVec 128

namespace Uuid

/-- The first byte counts most. -/
instance : LinearOrder Uuid where
  le_refl := fun _ => Nat.le_refl _
  le_trans := fun _ _ _ => Nat.le_trans
  lt_iff_le_not_ge := fun _ _ => Nat.lt_iff_le_and_not_ge
  le_antisymm := fun _ _ h h' => BitVec.eq_of_toNat_eq (Nat.le_antisymm h h')
  le_total := fun _ _ => Nat.le_total _ _
  toDecidableLE := fun u v => inferInstanceAs (Decidable (u ≤ v))
  toDecidableLT := fun u v => inferInstanceAs (Decidable (u < v))

-- Ids, and the keys of tables that are made of ids and texts.
instance : LawfulBEq Uuid := inferInstance

instance : LawfulBEq (Uuid × Uuid) := inferInstance

instance : LawfulBEq (Uuid × String) := inferInstance

instance : LawfulBEq (Uuid × Uuid × String) := inferInstance

instance : LawfulBEq (Uuid × Uuid × Uuid × String × String) := inferInstance

/-- The digits with a hyphen after the 8th, 12th, 16th and 20th. -/
def hyphenate (ds : List Char) : List Char :=
  ds.take 8 ++ '-' :: (ds.drop 8).take 4 ++ '-' :: (ds.drop 12).take 4 ++
    '-' :: (ds.drop 16).take 4 ++ '-' :: ds.drop 20

/-- `str(uuid)`. -/
def str (u : Uuid) : String := String.ofList (hyphenate (Digits.fixed 16 32 u.toNat))

theorem hyphenate_inj {a b : List Char} (ha : a.length = 32) (hb : b.length = 32)
    (h : hyphenate a = hyphenate b) : a = b := by
  unfold hyphenate at h
  -- The groups have the same lengths on both sides, so they agree one by one.
  obtain ⟨h, h5⟩ := List.append_inj h (by simp [ha, hb])
  obtain ⟨h, h4⟩ := List.append_inj h (by simp [ha, hb])
  obtain ⟨h, h3⟩ := List.append_inj h (by simp [ha, hb])
  obtain ⟨h1, h2⟩ := List.append_inj h (by simp [ha, hb])
  simp only [List.cons.injEq, true_and] at h2 h3 h4 h5
  have split : ∀ l : List Char, l = l.take 8 ++ ((l.drop 8).take 4 ++ ((l.drop 12).take 4 ++
      ((l.drop 16).take 4 ++ l.drop 20))) := by
    intro l
    have step : ∀ n m, l.drop n = (l.drop n).take m ++ l.drop (n + m) := fun n m => by
      rw [← List.drop_drop, List.take_append_drop]
    rw [← step 16 4, ← step 12 4, ← step 8 4, List.take_append_drop]
  rw [split a, split b, h1, h2, h3, h4, h5]

theorem str_inj {u v : Uuid} (h : str u = str v) : u = v := by
  have hdigits := hyphenate_inj (by simp) (by simp) (String.ofList_injective h)
  have bound : ∀ w : Uuid, w.toNat < 16 ^ 32 := fun w => lt_of_lt_of_eq w.isLt (by norm_num)
  exact BitVec.eq_of_toNat_eq
    (Digits.fixed_inj (by decide) (by decide) (bound u) (bound v) hdigits)

/-- `UUID(text)`, of a text `str` writes. -/
def ofStr (text : String) : Option Uuid :=
  let u := BitVec.ofNat 128 (Digits.value16 (text.toList.filter (· ≠ '-')))
  if str u = text then some u else none

theorem digitChar_ne_hyphen : ∀ d, d < 16 → Nat.digitChar d ≠ '-' := by
  decide

theorem mem_fixed_ne_hyphen {width n : Nat} {c : Char} (h : c ∈ Digits.fixed 16 width n) : c ≠ '-' :=
  Digits.of_mem_fixed (· ≠ '-') (by decide) digitChar_ne_hyphen h

theorem digitChar_ascii : ∀ d, d < 16 → (Nat.digitChar d).toNat < 128 := by
  decide

theorem ascii_of_mem_fixed {width n : Nat} {c : Char} (h : c ∈ Digits.fixed 16 width n) : c.toNat < 128 :=
  Digits.of_mem_fixed (·.toNat < 128) (by decide) digitChar_ascii h

theorem ascii_of_mem_str {u : Uuid} {c : Char} (h : c ∈ (str u).toList) : c.toNat < 128 := by
  have htake : ∀ n m, c ∈ ((Digits.fixed 16 32 u.toNat).drop n).take m → c.toNat < 128 := fun n m hmem =>
    ascii_of_mem_fixed (List.mem_of_mem_drop (List.mem_of_mem_take hmem))
  have hhyphen : c = '-' → c.toNat < 128 := by
    intro hc
    rw [hc]
    decide
  unfold str hyphenate at h
  simp only [String.toList_ofList, List.mem_append, List.mem_cons] at h
  rcases h with (((h | h | h) | h | h) | h | h) | h | h
  · exact ascii_of_mem_fixed (List.mem_of_mem_take h)
  · exact hhyphen h
  · exact htake 8 4 h
  · exact hhyphen h
  · exact htake 12 4 h
  · exact hhyphen h
  · exact htake 16 4 h
  · exact hhyphen h
  · exact ascii_of_mem_fixed (List.mem_of_mem_drop h)

theorem filter_hyphenate {ds : List Char} (hds : ∀ c ∈ ds, c ≠ '-') :
    (hyphenate ds).filter (· ≠ '-') = ds := by
  have hkeep : ∀ l : List Char, (∀ c ∈ l, c ∈ ds) → l.filter (· ≠ '-') = l := fun l hl =>
    List.filter_eq_self.mpr fun c hc => decide_eq_true (hds c (hl c hc))
  have htake : ∀ n m, ((ds.drop n).take m).filter (· ≠ '-') = (ds.drop n).take m := fun n m =>
    hkeep _ fun c hc => List.mem_of_mem_drop (List.mem_of_mem_take hc)
  have hstep : ∀ n m, (ds.drop n).take m ++ ds.drop (n + m) = ds.drop n := fun n m => by
    rw [← List.drop_drop, List.take_append_drop]
  have hfirst : (ds.take 8).filter (· ≠ '-') = ds.take 8 := hkeep _ fun c hc => List.mem_of_mem_take hc
  have hrest : (ds.drop 20).filter (· ≠ '-') = ds.drop 20 := hkeep _ fun c hc => List.mem_of_mem_drop hc
  unfold hyphenate
  simp only [List.filter_append, List.filter_cons, ne_eq, not_true_eq_false, decide_false, Bool.false_eq_true,
    if_false] at *
  rw [hfirst, htake, htake, htake, hrest, List.append_assoc, List.append_assoc, List.append_assoc, hstep 16 4,
    hstep 12 4, hstep 8 4, List.take_append_drop]

theorem ofStr_str (u : Uuid) : ofStr (str u) = some u := by
  have hbound : u.toNat < 16 ^ 32 := lt_of_lt_of_eq u.isLt (by norm_num)
  have hdigits : (str u).toList.filter (· ≠ '-') = Digits.fixed 16 32 u.toNat := by
    unfold str
    rw [String.toList_ofList]
    exact filter_hyphenate fun c hc => mem_fixed_ne_hyphen hc
  unfold ofStr
  rw [hdigits, Digits.value16_fixed hbound, BitVec.ofNat_toNat, BitVec.setWidth_eq]
  exact if_pos rfl

example : str 0x12345678_9abc_def0_0123_456789abcdef#128 =
    "12345678-9abc-def0-0123-456789abcdef" := by decide +kernel

end Uuid
end Sentinel.Library
