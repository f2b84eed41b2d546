import Sentinel.Library.JsonPath
import Sentinel.Relationships.Extractors

/-! `ArmReferenceExtractor.extract` against a description without recursion on the depth.

`Json.texts` has every text of the properties with the way down to it, however deep. The
extractor finds those at most twelve levels down, with no index from 1000 on, that have the
shape of an ARM id (`visit_eq`); of several with one target the last gives the path
(`extract_meets_specification`). -/
namespace Sentinel.Relationships
open Library Common

namespace ArmReferenceExtractor

/-- The visit looks at no more than the first thousand items of a list. -/
def Narrow : Json.Step → Prop
  | .member _ => True
  | .item index => index < 1000

instance : DecidablePred Narrow := fun step =>
  match step with
  | .member _ => inferInstanceAs (Decidable True)
  | .item index => inferInstanceAs (Decidable (index < 1000))

/-- The text is near enough to be read by a visit that starts at `depth`, and refers to a
resource. -/
structure Found (py : Python) (depth : Nat) (t : Json.TextAt) : Prop where
  depth : depth + t.steps.length ≤ 12
  narrow : ∀ step ∈ t.steps, Narrow step
  reference : IsReference (normalize py t.text)

instance (py : Python) (depth : Nat) : DecidablePred (Found py depth) := fun t =>
  decidable_of_iff (depth + t.steps.length ≤ 12 ∧ (∀ step ∈ t.steps, Narrow step) ∧
    IsReference (normalize py t.text)) ⟨fun h => ⟨h.1, h.2.1, h.2.2⟩, fun h => ⟨h.1, h.2, h.3⟩⟩

/-- The candidate of a text, under a path. -/
def candidateOf (py : Python) (path : String) (t : Json.TextAt) : EdgeCandidate :=
  candidate (normalize py t.text) (path ++ Json.render t.steps)

section Visit
variable {py : Python} {depth : Nat}

theorem found_under {step : Json.Step} {t : Json.TextAt} :
    Found py depth (t.under step) ↔ Narrow step ∧ Found py (depth + 1) t := by
  have hlength : depth + (t.under step).steps.length = depth + 1 + t.steps.length := by
    show depth + (t.steps.length + 1) = _
    omega
  refine ⟨?_, ?_⟩
  · intro h
    have hnarrow := List.forall_mem_cons.mp h.narrow
    exact ⟨hnarrow.1, hlength ▸ h.depth, hnarrow.2, h.reference⟩
  · intro h
    exact ⟨hlength ▸ h.2.depth, List.forall_mem_cons.mpr ⟨h.1, h.2.narrow⟩, h.2.reference⟩

theorem candidateOf_under (path : String) (step : Json.Step) (t : Json.TextAt) :
    candidateOf py path (t.under step) = candidateOf py (path ++ step.render) t := by
  show candidate _ (path ++ (step.render ++ Json.render t.steps)) = _
  rw [← String.append_assoc]
  rfl

/-- The candidates of the texts of a value, from one level above. -/
theorem candidates_under {path : String} {step : Json.Step} {ts : List Json.TextAt} :
    ((ts.map (.under step)).filter (Found py depth)).map (candidateOf py path) =
      if Narrow step then (ts.filter (Found py (depth + 1))).map (candidateOf py (path ++ step.render)) else [] := by
  rw [List.filter_map, List.map_map]
  split_ifs with hnarrow
  · have hfound : (fun t => decide (Found py depth t)) ∘ Json.TextAt.under step =
        fun t => decide (Found py (depth + 1) t) := by
      funext t
      simp [found_under, hnarrow]
    rw [hfound]
    exact List.map_congr_left fun t _ => candidateOf_under path step t
  · have hfound : (fun t => decide (Found py depth t)) ∘ Json.TextAt.under step = fun _ => false := by
      funext t
      simp [found_under, hnarrow]
    rw [hfound, List.filter_false]
    rfl

/-- Below the twelfth level nothing is read. -/
theorem filter_found_of_deep {ts : List Json.TextAt} (hdepth : 12 < depth) : ts.filter (Found py depth) = [] := by
  rw [List.filter_eq_nil_iff]
  intro t _ hfound
  have hle := (of_decide_eq_true hfound).depth
  omega

theorem visitMembers_eq {members : List (String × Json)} (path : String)
    (ih : ∀ m ∈ members, ∀ path, visit py m.2 path (depth + 1) =
      ((Json.texts m.2).filter (Found py (depth + 1))).map (candidateOf py path)) :
    visitMembers py members path depth =
      ((Json.textsOfMembers members).filter (Found py depth)).map (candidateOf py path) := by
  induction members with
  | nil => rfl
  | cons m rest ihrest =>
    have hnarrow : Narrow (.member m.1) := trivial
    rw [visitMembers, Json.textsOfMembers, List.filter_append, List.map_append, candidates_under,
      if_pos hnarrow, ih m List.mem_cons_self, ihrest fun q hq => ih q (List.mem_cons_of_mem m hq),
      String.append_assoc]
    rfl

/-- From item 1000 on nothing is read. -/
theorem filter_found_of_wide {items : List Json} {index : Nat} (hindex : 1000 ≤ index) :
    (Json.textsOfItems items index).filter (Found py depth) = [] := by
  induction items generalizing index with
  | nil => rfl
  | cons v rest ih =>
    have hnarrow : ¬ Narrow (.item index) := Nat.not_lt.mpr hindex
    rw [Json.textsOfItems, List.filter_append, ih (Nat.le_succ_of_le hindex), List.append_nil,
      List.filter_eq_nil_iff]
    intro t ht hfound
    obtain ⟨u, _, rfl⟩ := List.mem_map.mp ht
    exact hnarrow (found_under.mp (of_decide_eq_true hfound)).1

theorem visitItems_eq {items : List Json} (index : Nat) (path : String)
    (ih : ∀ v ∈ items, ∀ path, visit py v path (depth + 1) =
      ((Json.texts v).filter (Found py (depth + 1))).map (candidateOf py path)) :
    visitItems py items index path depth =
      ((Json.textsOfItems items index).filter (Found py depth)).map (candidateOf py path) := by
  induction items generalizing index with
  | nil => rfl
  | cons v rest ihrest =>
    by_cases hindex : 1000 ≤ index
    · rw [visitItems, if_pos hindex, filter_found_of_wide hindex]
      rfl
    · have hnarrow : Narrow (.item index) := Nat.lt_of_not_le hindex
      rw [visitItems, if_neg hindex, Json.textsOfItems, List.filter_append, List.map_append, candidates_under,
        if_pos hnarrow, ih v List.mem_cons_self, ihrest (index + 1) fun q hq => ih q (List.mem_cons_of_mem v hq)]
      simp only [Json.Step.render, String.append_assoc]

/-- A visit assigns the candidates of the texts it finds, in document order. -/
theorem visit_eq (v : Json) (path : String) (depth : Nat) : visit py v path depth =
    ((Json.texts v).filter (Found py depth)).map (candidateOf py path) := by
  induction v using Json.induct generalizing path depth with
  | str text =>
    have hfound : Found py depth ⟨[], text⟩ ↔ ¬ 12 < depth ∧ IsReference (normalize py text) := by
      refine ⟨?_, ?_⟩
      · intro h
        exact ⟨Nat.not_lt.mpr h.depth, h.reference⟩
      · intro h
        exact ⟨Nat.not_lt.mp h.1, (fun _ hstep => nomatch hstep), h.2⟩
    have hcandidate : candidateOf py path ⟨[], text⟩ = candidate (normalize py text) path := by
      show candidate _ (path ++ "") = _
      rw [String.append_empty]
    rw [visit, Json.texts, List.filter_singleton]
    by_cases h : Found py depth ⟨[], text⟩
    · obtain ⟨hdepth, href⟩ := hfound.mp h
      rw [if_neg hdepth, if_pos href, decide_eq_true h, ← hcandidate]
      rfl
    · rw [decide_eq_false h]
      split_ifs with hdepth href
      · rfl
      · exact absurd (hfound.mpr ⟨hdepth, href⟩) h
      · rfl
  | arr items ih =>
    rw [visit, Json.texts]
    split_ifs with hdepth
    · rw [filter_found_of_deep hdepth]
      rfl
    · exact visitItems_eq 0 path fun v hv path => ih v hv path (depth + 1)
  | obj members ih =>
    rw [visit, Json.texts]
    split_ifs with hdepth
    · rw [filter_found_of_deep hdepth]
      rfl
    · exact visitMembers_eq path fun m hm path => ih m hm path (depth + 1)
  | _ => rw [visit, Json.texts] <;> simp

/-- **`extract` meets its specification**: its targets are distinct, they are the references
among the texts it may read, and the path of each is the way to the last such text, in
document order, that normalises to it. -/
theorem extract_meets_specification (py : Python) (properties : Json.Object) :
    ((extract py properties).map EdgeCandidate.targetResourceId).Nodup ∧
    (∀ target, target ∈ (extract py properties).map EdgeCandidate.targetResourceId ↔
      ∃ t ∈ Json.texts properties.json, Found py 0 t ∧ normalize py t.text = target) ∧
    ∀ c ∈ extract py properties, ∃ t,
      ((Json.texts properties.json).filter fun t =>
        Found py 0 t ∧ normalize py t.text = c.targetResourceId).getLast? = some t ∧
      c.evidencePath = "$" ++ Json.render t.steps := by
  have hvisit : visit py properties.json "$" 0 =
      ((Json.texts properties.json).filter (Found py 0)).map (candidateOf py "$") := visit_eq _ _ _
  refine ⟨nodup_extract properties, ?_, ?_⟩
  · intro target
    rw [mem_targets, hvisit]
    simp only [List.mem_map, List.mem_filter, decide_eq_true_eq]
    refine ⟨?_, ?_⟩
    · intro h
      obtain ⟨c, ⟨t, ht, rfl⟩, htarget⟩ := h
      exact ⟨t, ht.1, ht.2, htarget⟩
    · intro h
      obtain ⟨t, ht, hfound, htarget⟩ := h
      exact ⟨candidateOf py "$" t, ⟨t, ⟨ht, hfound⟩, rfl⟩, htarget⟩
  · intro c hc
    obtain ⟨p, hp, rfl⟩ := List.mem_map.mp hc
    have hlast := Dict.getLast?_of_mem_ofList hp
    rw [hvisit, (Dict.mem_ofList hp).2, List.filter_map, List.filter_filter, List.getLast?_map] at hlast
    obtain ⟨t, ht, hcandidate⟩ := Option.map_eq_some_iff.mp hlast
    refine ⟨t, ?_, ?_⟩
    · rw [← ht]
      congr 2
      funext u
      rw [Bool.decide_and, Bool.and_comm]
      rfl
    · rw [← hcandidate]
      rfl

/-- The last text that normalises to a target gives its path. -/
example : (extract .ascii
    { members := [("a", .arr [.str "/subscriptions/1/providers/x", .str " /Subscriptions/1/providers/X "])]
      wellFormed := by simp [Json.WellFormed] }).map EdgeCandidate.evidencePath = ["$.a[1]"] := by decide +kernel

end Visit

end ArmReferenceExtractor
end Sentinel.Relationships
