import Sentinel.Common.Python
import Sentinel.Library.Dict
import Sentinel.Library.Jsonb

/-! Relationship extractors: which resources the properties of a resource refer to.

The only one deployed, `ArmReferenceExtractor`, reads every text at most twelve levels
down and among the first thousand items of each list (`Leaf`), and takes it for an ARM id
by its shape (`IsReference`). Which targets it finds does not depend on the order of object
members, so not on whether the properties were read back from a `jsonb` column
(`target_reload`). -/
namespace Sentinel.Relationships
open Library Common

structure EdgeCandidate where
  targetResourceId : String
  relationshipType : String
  dependencyStrength : String
  confidence : ℚ
  evidencePath : String
  deriving DecidableEq

structure Extractor where
  name : String
  version : String
  supports : String → Bool
  extract : Json.Object → List EdgeCandidate

namespace ArmReferenceExtractor

variable (py : Python)

def normalize (value : String) : String := py.lower (py.strip value)

/-- The shape of the ARM id of a resource other than a diagnostic setting. -/
def IsReference (normalized : String) : Prop :=
  "/subscriptions/".toList <+: normalized.toList ∧ "/providers/".toList <:+: normalized.toList ∧
    ¬ "/providers/microsoft.insights/diagnosticsettings".toList <:+ normalized.toList

instance : DecidablePred IsReference := fun normalized => by unfold IsReference; infer_instance

def candidate (normalized path : String) : EdgeCandidate where
  targetResourceId := normalized
  relationshipType := "references"
  dependencyStrength := "hard"
  confidence := 1
  evidencePath := path

mutual
/-- `visit(value, path, depth)`: the candidates it assigns, in order. -/
def visit : Json → String → Nat → List EdgeCandidate
  | .obj members, path, depth => if 12 < depth then [] else visitMembers members path depth
  | .arr items, path, depth => if 12 < depth then [] else visitItems items 0 path depth
  | .str value, path, depth =>
    if 12 < depth then []
    else if IsReference (normalize py value) then [candidate (normalize py value) path] else []
  | _, _, _ => []

def visitMembers : List (String × Json) → String → Nat → List EdgeCandidate
  | [], _, _ => []
  | (key, child) :: rest, path, depth =>
    visit child (path ++ "." ++ key) (depth + 1) ++ visitMembers rest path depth

/-- The items from `index` on. -/
def visitItems : List Json → Nat → String → Nat → List EdgeCandidate
  | [], _, _, _ => []
  | child :: rest, index, path, depth =>
    if 1000 ≤ index then []
    else visit child (path ++ "[" ++ toString index ++ "]") (depth + 1) ++
      visitItems rest (index + 1) path depth
end

/-- `candidates` is a dictionary by target: a later path replaces an earlier one. -/
def extract (properties : Json.Object) : List EdgeCandidate :=
  (Dict.ofList EdgeCandidate.targetResourceId (visit py properties.json "$" 0)).map Prod.snd

def supports (resourceType : String) : Bool := "microsoft.".toList.isPrefixOf resourceType.toList

end ArmReferenceExtractor

def armReferenceExtractor (py : Python) : Extractor where
  name := "arm-reference"
  version := "1.0.0"
  supports := ArmReferenceExtractor.supports
  extract := ArmReferenceExtractor.extract py

/-- `DEFAULT_EXTRACTORS`. -/
def defaultExtractors (py : Python) : List Extractor := [armReferenceExtractor py]

namespace ArmReferenceExtractor

/-! ### Which targets are found -/

/-- A text the visit reads in a value at some depth. -/
inductive Leaf : Nat → Json → String → Prop
  | str {depth : Nat} {s : String} : depth ≤ 12 → Leaf depth (.str s) s
  | item {depth i : Nat} {items : List Json} {v : Json} {s : String} : depth ≤ 12 → i < 1000 →
      items[i]? = some v → Leaf (depth + 1) v s → Leaf depth (.arr items) s
  | member {depth : Nat} {members : List (String × Json)} {key : String} {v : Json} {s : String} :
      depth ≤ 12 → (key, v) ∈ members → Leaf (depth + 1) v s → Leaf depth (.obj members) s

variable {py : Python}

theorem mem_visitMembers {members : List (String × Json)} {path : String} {depth : Nat}
    {c : EdgeCandidate} : c ∈ visitMembers py members path depth ↔
      ∃ m ∈ members, c ∈ visit py m.2 (path ++ "." ++ m.1) (depth + 1) := by
  induction members with
  | nil => simp [visitMembers]
  | cons m rest ih => simp [visitMembers, ih]

theorem mem_visitItems {items : List Json} {index : Nat} {path : String} {depth : Nat}
    {c : EdgeCandidate} : c ∈ visitItems py items index path depth ↔
      ∃ i v, items[i]? = some v ∧ index + i < 1000 ∧
        c ∈ visit py v (path ++ "[" ++ toString (index + i) ++ "]") (depth + 1) := by
  induction items generalizing index with
  | nil => simp [visitItems]
  | cons child rest ih =>
    rw [visitItems]
    split_ifs with hindex
    · simp only [List.not_mem_nil, false_iff, not_exists, not_and]
      intro i v _ hlt
      omega
    · rw [List.mem_append, ih]
      refine ⟨?_, ?_⟩
      · intro h
        cases h with
        | inl h => exact ⟨0, child, rfl, by omega, h⟩
        | inr h =>
          obtain ⟨i, v, hv, hlt, hc⟩ := h
          have hshift : index + 1 + i = index + (i + 1) := by omega
          rw [hshift] at hlt hc
          exact ⟨i + 1, v, hv, hlt, hc⟩
      · intro h
        obtain ⟨i, v, hv, hlt, hc⟩ := h
        cases i with
        | zero =>
          obtain rfl : child = v := by simpa using hv
          exact .inl hc
        | succ i =>
          have hshift : index + (i + 1) = index + 1 + i := by omega
          rw [hshift] at hlt hc
          exact .inr ⟨i, v, hv, hlt, hc⟩

/-- The candidates of a visit, by the texts it reads: each text with the shape of an ARM id
gives one, and nothing else does. -/
theorem mem_visit {v : Json} (path : String) {depth : Nat} {target : String} :
    (∃ c ∈ visit py v path depth, c.targetResourceId = target) ↔
      IsReference target ∧ ∃ s, Leaf depth v s ∧ normalize py s = target := by
  induction v using Json.induct generalizing path depth with
  | str value =>
    rw [visit]
    refine ⟨?_, ?_⟩
    · intro h
      obtain ⟨c, hc, rfl⟩ := h
      split_ifs at hc with hdepth href
      · simp at hc
      · obtain rfl := List.mem_singleton.mp hc
        exact ⟨href, value, .str (by omega), rfl⟩
      · simp at hc
    · intro h
      obtain ⟨href, s, hleaf, rfl⟩ := h
      cases hleaf with
      | str hdepth =>
        rw [if_neg (by omega), if_pos href]
        exact ⟨_, List.mem_singleton_self _, rfl⟩
  | arr items ih =>
    rw [visit]
    refine ⟨?_, ?_⟩
    · intro h
      obtain ⟨c, hc, htarget⟩ := h
      split_ifs at hc with hdepth
      · simp at hc
      · obtain ⟨i, v, hv, hlt, hmem⟩ := mem_visitItems.mp hc
        obtain ⟨href, s, hleaf, hs⟩ := (ih v (List.mem_of_getElem? hv) _).mp ⟨c, hmem, htarget⟩
        exact ⟨href, s, .item (by omega) (by omega) hv hleaf, hs⟩
    · intro h
      obtain ⟨href, s, hleaf, hs⟩ := h
      cases hleaf with
      | @item _ i _ v _ hdepth hlt hv hleaf =>
        rw [if_neg (by omega)]
        obtain ⟨c, hc, htarget⟩ := (ih v (List.mem_of_getElem? hv)
          (path ++ "[" ++ toString (0 + i) ++ "]")).mpr ⟨href, s, hleaf, hs⟩
        exact ⟨c, mem_visitItems.mpr ⟨i, v, hv, by omega, hc⟩, htarget⟩
  | obj members ih =>
    rw [visit]
    refine ⟨?_, ?_⟩
    · intro h
      obtain ⟨c, hc, htarget⟩ := h
      split_ifs at hc with hdepth
      · simp at hc
      · obtain ⟨m, hm, hmem⟩ := mem_visitMembers.mp hc
        obtain ⟨href, s, hleaf, hs⟩ := (ih m hm _).mp ⟨c, hmem, htarget⟩
        exact ⟨href, s, .member (by omega) hm hleaf, hs⟩
    · intro h
      obtain ⟨href, s, hleaf, hs⟩ := h
      cases hleaf with
      | @member _ _ key v _ hdepth hm hleaf =>
        rw [if_neg (by omega)]
        obtain ⟨c, hc, htarget⟩ := (ih (key, v) hm (path ++ "." ++ key)).mpr
          ⟨href, s, hleaf, hs⟩
        exact ⟨c, mem_visitMembers.mpr ⟨(key, v), hm, hc⟩, htarget⟩
  | _ =>
    rw [visit]
    · constructor
      · intro h
        obtain ⟨c, hc, -⟩ := h
        simp at hc
      · intro h
        obtain ⟨-, s, hleaf, -⟩ := h
        cases hleaf
    all_goals simp

/-- Every candidate is a `references` edge to an ARM id. -/
theorem candidate_of_mem_visit {v : Json} {path : String} {depth : Nat} {c : EdgeCandidate}
    (h : c ∈ visit py v path depth) : ∃ evidence, c = candidate c.targetResourceId evidence := by
  induction v using Json.induct generalizing path depth with
  | str value =>
    rw [visit] at h
    split_ifs at h
    · simp at h
    · obtain rfl := List.mem_singleton.mp h
      exact ⟨path, rfl⟩
    · simp at h
  | arr items ih =>
    rw [visit] at h
    split_ifs at h
    · simp at h
    · obtain ⟨i, v, hv, -, hmem⟩ := mem_visitItems.mp h
      exact ih v (List.mem_of_getElem? hv) hmem
  | obj members ih =>
    rw [visit] at h
    split_ifs at h
    · simp at h
    · obtain ⟨m, hm, hmem⟩ := mem_visitMembers.mp h
      exact ih m hm hmem
  | _ =>
    rw [visit] at h
    · simp at h
    all_goals simp

/-- The texts a visit reads are the same in a value read back from a `jsonb` column. -/
theorem leaf_reload {v : Json} {depth : Nat} {s : String} :
    Leaf depth v.reload s ↔ Leaf depth v s := by
  induction v using Json.induct generalizing depth with
  | float d =>
    have hno : ∀ w : Json, (∀ t, w ≠ .str t) → (∀ l, w ≠ .arr l) → (∀ l, w ≠ .obj l) →
        ¬ Leaf depth w s := by
      intro w hs ha ho h
      cases h with
      | str => exact hs _ rfl
      | item => exact ha _ rfl
      | member => exact ho _ rfl
    rw [Json.reload]
    refine ⟨?_, ?_⟩
    · intro h
      refine absurd h (hno _ ?_ ?_ ?_) <;> (unfold Json.reloadDouble; intro t; split <;> simp) <;>
        split_ifs <;> simp
    · intro h
      exact absurd h (hno _ (by simp) (by simp) (by simp))
  | arr items ih =>
    rw [Json.reload_arr]
    refine ⟨?_, ?_⟩
    · intro h
      cases h with
      | item hdepth hlt hv hleaf =>
        rw [List.getElem?_map, Option.map_eq_some_iff] at hv
        obtain ⟨w, hw, rfl⟩ := hv
        exact .item hdepth hlt hw ((ih w (List.mem_of_getElem? hw)).mp hleaf)
    · intro h
      cases h with
      | item hdepth hlt hv hleaf =>
        refine .item hdepth hlt (by rw [List.getElem?_map, hv]; rfl) ?_
        exact (ih _ (List.mem_of_getElem? hv)).mpr hleaf
  | obj members ih =>
    obtain ⟨stored, heq, hperm⟩ := Json.reload_obj members
    rw [heq]
    refine ⟨?_, ?_⟩
    · intro h
      cases h with
      | member hdepth hm hleaf =>
        obtain ⟨m, hmem, hmv⟩ := List.mem_map.mp (hperm.mem_iff.mp hm)
        obtain ⟨rfl, rfl⟩ := Prod.mk.inj hmv
        exact .member hdepth hmem ((ih m hmem).mp hleaf)
    · intro h
      cases h with
      | @member _ _ key v _ hdepth hm hleaf =>
        refine .member hdepth (hperm.mem_iff.mpr (List.mem_map.mpr ⟨(key, v), hm, rfl⟩)) ?_
        exact (ih (key, v) hm).mpr hleaf
  | _ => simp [Json.reload]

/-! ### The result -/

/-- A target of the properties. -/
def Target (py : Python) (properties : Json.Object) (target : String) : Prop :=
  IsReference target ∧ ∃ s, Leaf 0 properties.json s ∧ normalize py s = target

/-- The dictionary has the targets that the visit assigns. -/
theorem mem_targets {properties : Json.Object} {target : String} :
    target ∈ (extract py properties).map EdgeCandidate.targetResourceId ↔
      ∃ c ∈ visit py properties.json "$" 0, c.targetResourceId = target := by
  refine ⟨?_, ?_⟩
  · intro h
    obtain ⟨c, hc, htarget⟩ := List.mem_map.mp h
    obtain ⟨p, hp, rfl⟩ := List.mem_map.mp hc
    exact ⟨p.2, (Dict.mem_ofList hp).1, htarget⟩
  · intro h
    obtain ⟨c, hc, htarget⟩ := h
    have hkey := Dict.mem_keys_ofList.mpr (List.mem_map_of_mem (f := EdgeCandidate.targetResourceId) hc)
    obtain ⟨p, hp, hpkey⟩ := List.mem_map.mp hkey
    refine List.mem_map.mpr ⟨p.2, List.mem_map_of_mem hp, ?_⟩
    rw [← (Dict.mem_ofList hp).2, hpkey, htarget]

/-- **The targets of `extract`** are the references among the texts it reads. -/
theorem mem_extract {properties : Json.Object} {target : String} :
    target ∈ (extract py properties).map EdgeCandidate.targetResourceId ↔
      Target py properties target := by
  rw [Target, ← mem_visit "$"]
  exact mem_targets

theorem nodup_extract (properties : Json.Object) :
    ((extract py properties).map EdgeCandidate.targetResourceId).Nodup := by
  have hkeys := Dict.nodup_ofList EdgeCandidate.targetResourceId (visit py properties.json "$" 0)
  have heq : (extract py properties).map EdgeCandidate.targetResourceId =
      (Dict.ofList EdgeCandidate.targetResourceId (visit py properties.json "$" 0)).map Prod.fst := by
    rw [extract, List.map_map]
    exact List.map_congr_left fun p hp => (Dict.mem_ofList hp).2.symm
  rw [heq]
  exact hkeys

theorem candidate_of_mem_extract {properties : Json.Object} {c : EdgeCandidate}
    (h : c ∈ extract py properties) : ∃ evidence, c = candidate c.targetResourceId evidence := by
  obtain ⟨p, hp, rfl⟩ := List.mem_map.mp h
  exact candidate_of_mem_visit (Dict.mem_ofList hp).1

/-- Storing the properties does not change the targets. -/
theorem target_reload {properties : Json.Object} {target : String} :
    Target py properties.reload target ↔ Target py properties target := by
  simp only [Target, Json.Object.reload_json, leaf_reload]

end ArmReferenceExtractor
end Sentinel.Relationships
