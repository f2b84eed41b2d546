import Mathlib

/-! A Python `dict`: keys in the order of their first assignment, the last value of each. -/
namespace Sentinel.Library.Dict

variable {κ β : Type*} [DecidableEq κ]

/-- `d[key] = value`. -/
def set (d : List (κ × β)) (key : κ) (value : β) : List (κ × β) :=
  if key ∈ d.map Prod.fst then d.map fun p => if p.1 = key then (key, value) else p
  else d ++ [(key, value)]

theorem keys_set (d : List (κ × β)) (key : κ) (value : β) : (set d key value).map Prod.fst =
    if key ∈ d.map Prod.fst then d.map Prod.fst else d.map Prod.fst ++ [key] := by
  unfold set
  split_ifs with h
  · rw [List.map_map]
    refine List.map_congr_left fun p _ => ?_
    simp only [Function.comp_apply]
    split_ifs with hp
    · exact hp.symm
    · rfl
  · simp

/-- No key appears twice. -/
theorem nodup_set {d : List (κ × β)} (h : (d.map Prod.fst).Nodup) (key : κ) (value : β) :
    ((set d key value).map Prod.fst).Nodup := by
  rw [keys_set]
  split_ifs with hmem
  · exact h
  · rw [← List.concat_eq_append, List.nodup_concat]
    exact ⟨hmem, h⟩

theorem mem_set {d : List (κ × β)} {key : κ} {value : β} {p : κ × β} :
    p ∈ set d key value ↔ p = (key, value) ∨ p ∈ d ∧ p.1 ≠ key := by
  unfold set
  split_ifs with h
  · obtain ⟨q, hq, hkey⟩ := List.mem_map.mp h
    refine ⟨?_, ?_⟩
    · intro hp
      obtain ⟨r, hr, rfl⟩ := List.mem_map.mp hp
      split_ifs with hrk
      · exact .inl rfl
      · exact .inr ⟨hr, hrk⟩
    · intro hp
      cases hp with
      | inl hp => exact List.mem_map.mpr ⟨q, hq, by rw [if_pos hkey, hp]⟩
      | inr hp => exact List.mem_map.mpr ⟨p, hp.1, if_neg hp.2⟩
  · rw [List.mem_append, List.mem_singleton, or_comm]
    refine or_congr_right ⟨fun hp => ⟨hp, fun hpk => h ?_⟩, fun hp => hp.1⟩
    exact hpk ▸ List.mem_map_of_mem hp

theorem set_ne_nil (d : List (κ × β)) (key : κ) (value : β) : set d key value ≠ [] :=
  List.ne_nil_of_mem (mem_set.mpr (.inl rfl))

/-- The dictionary after assigning each value in order, under its key. -/
def ofList (key : β → κ) (values : List β) : List (κ × β) :=
  values.foldl (fun d v => set d (key v) v) []

theorem ofList_snoc (key : β → κ) (values : List β) (v : β) :
    ofList key (values ++ [v]) = set (ofList key values) (key v) v := by
  simp [ofList]

theorem nodup_ofList (key : β → κ) (values : List β) : ((ofList key values).map Prod.fst).Nodup := by
  induction values using List.reverseRecOn with
  | nil => simp [ofList]
  | append_singleton values v ih =>
    rw [ofList_snoc]
    exact nodup_set ih (key v) v

/-- The keys are those of the values assigned. -/
theorem mem_keys_ofList {key : β → κ} {values : List β} {k : κ} :
    k ∈ (ofList key values).map Prod.fst ↔ k ∈ values.map key := by
  induction values using List.reverseRecOn with
  | nil => simp [ofList]
  | append_singleton values v ih =>
    rw [ofList_snoc, keys_set, List.map_append, List.mem_append, List.map_singleton,
      List.mem_singleton, ← ih]
    split_ifs with hmem
    · refine ⟨.inl, fun h => h.elim id fun hk => hk ▸ hmem⟩
    · rw [List.mem_append, List.mem_singleton]

/-- Every entry is a value assigned, under its key. -/
theorem mem_ofList {key : β → κ} {values : List β} {p : κ × β} (h : p ∈ ofList key values) :
    p.2 ∈ values ∧ p.1 = key p.2 := by
  induction values using List.reverseRecOn with
  | nil => simp [ofList] at h
  | append_singleton values v ih =>
    rw [ofList_snoc] at h
    cases mem_set.mp h with
    | inl h =>
      rw [h]
      exact ⟨by simp, rfl⟩
    | inr h => exact ⟨List.mem_append_left _ (ih h.1).1, (ih h.1).2⟩

/-- The entry of a key is the last value assigned under it. -/
theorem getLast?_of_mem_ofList {key : β → κ} {values : List β} {p : κ × β} (h : p ∈ ofList key values) :
    (values.filter fun v => key v = p.1).getLast? = some p.2 := by
  induction values using List.reverseRecOn with
  | nil => simp [ofList] at h
  | append_singleton values v ih =>
    rw [ofList_snoc] at h
    rw [List.filter_append, List.filter_singleton]
    cases mem_set.mp h with
    | inl h =>
      rw [h]
      simp
    | inr h =>
      rw [decide_eq_false (Ne.symm h.2)]
      simpa using ih h.1

end Sentinel.Library.Dict
