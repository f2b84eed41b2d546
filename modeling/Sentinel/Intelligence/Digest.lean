import Sentinel.Intelligence.Main
import Sentinel.Library.Fallible

/-! The digest of an assessment: what it binds, and whether the stored row reproduces it.

The digest is taken over the canonical text of the request, which determines the request up
to the order of members (`assessment_digest_binds`). The row keeps the input in a `jsonb`
column, and not every number comes back from there as it was (`assessment_reproduces_iff`). -/
namespace Sentinel.Intelligence
open Library Library.Json Common

/-- One action on one resource, with parameters that differ in the order of members at most. -/
structure AssessmentCreate.Agrees (a b : AssessmentCreate) : Prop where
  actionType : a.actionType = b.actionType
  targetResourceId : a.targetResourceId = b.targetResourceId
  parameters : Same a.parameters.json b.parameters.json

/-- `json.dumps` of the stored input, hashed as `create_assessment` does. -/
def ChangeAssessment.Reproduces (a : ChangeAssessment) : Prop :=
  "sha256:" ++ Sha256.hexdigest a.canonicalInput.dumps = a.inputSha256

section Digest
variable {a b request : AssessmentCreate}

theorem wellFormed_canonical (request : AssessmentCreate) : WellFormed (canonical request) := by
  have hparameters : WellFormed request.parameters.json := request.parameters.wellFormed
  rw [canonical, wellFormed_obj]
  refine ⟨by simp, ?_⟩
  simp [hparameters, WellFormed]

/-- The members of `canonical`. -/
def canonicalMembers (request : AssessmentCreate) : List (String × Json) :=
  [("action_type", .str request.actionType), ("target_resource_id", .str request.targetResourceId.str),
    ("parameters", request.parameters.json)]

theorem same_canonical_iff : Same (canonical a) (canonical b) ↔ a.Agrees b := by
  refine ⟨?_, ?_⟩
  · intro h
    have hkeys : ((canonicalMembers b).map Prod.fst).Nodup := by simp [canonicalMembers]
    have field : ∀ (key : String) {v w : Json}, (key, v) ∈ canonicalMembers a → (key, w) ∈ canonicalMembers b →
        Same v w := fun key _ _ hv hw => Same.member h hkeys hv hw
    exact
      { actionType := (field "action_type" (by simp [canonicalMembers]) (by simp [canonicalMembers])).str_inj
        targetResourceId := Uuid.str_inj
          (field "target_resource_id" (by simp [canonicalMembers]) (by simp [canonicalMembers])).str_inj
        parameters := field "parameters" (by simp [canonicalMembers]) (by simp [canonicalMembers]) }
  · intro h
    show Same (.obj (canonicalMembers a)) (.obj (canonicalMembers b))
    refine .obj (.refl _) (.refl _) (by simp [canonicalMembers]) ?_
    simp only [canonicalMembers, List.map_cons, List.map_nil, List.forall₂_cons, List.Forall₂.nil, and_true]
    refine ⟨?_, ?_, h.parameters⟩
    · rw [h.actionType]
      exact .refl _
    · rw [h.targetResourceId]
      exact .refl _

theorem dumps_canonical_iff : (canonical a).dumps = (canonical b).dumps ↔ a.Agrees b :=
  ⟨fun h => same_canonical_iff.mp (same_of_dumps_eq h),
    fun h => dumps_eq_of_same (same_canonical_iff.mpr h) (wellFormed_canonical a) (wellFormed_canonical b)⟩

/-- Where SHA-256 does not collide, the prefixed digests are equal for equal texts only. -/
theorem prefixed_hexdigest_iff {s t : List Char} (hfree : Sha256.CollisionFree {s, t}) :
    "sha256:" ++ Sha256.hexdigest s = "sha256:" ++ Sha256.hexdigest t ↔ s = t := by
  refine ⟨?_, fun h => h ▸ rfl⟩
  intro h
  have hchars : "sha256:".toList ++ (Sha256.hexdigest s).toList =
      "sha256:".toList ++ (Sha256.hexdigest t).toList := by
    rw [← String.toList_append, ← String.toList_append, h]
  exact hfree (by simp) (by simp) (String.toList_inj.mp (List.append_cancel_left hchars))

end Digest

/-- **The digest binds exactly the input.** Two requests have one canonical text if and only if
they agree, and so one digest unless SHA-256 collides on their texts. -/
theorem assessment_digest_binds (a b : AssessmentCreate) :
    ((canonical a).dumps = (canonical b).dumps ↔ a.Agrees b) ∧
      (Sha256.CollisionFree {(canonical a).dumps, (canonical b).dumps} → (digest a = digest b ↔ a.Agrees b)) := by
  refine ⟨dumps_canonical_iff, ?_⟩
  intro hfree
  rw [← dumps_canonical_iff]
  exact prefixed_hexdigest_iff hfree

/-- To stop a machine, with its options under two keys in either order. -/
def sampleStop (swapped : Bool) : AssessmentCreate where
  actionType := "azure.vm.stop"
  targetResourceId := 8
  parameters := if swapped then ⟨[("force", .bool true), ("after", .int 60)], by simp [WellFormed]⟩
    else ⟨[("after", .int 60), ("force", .bool true)], by simp [WellFormed]⟩

theorem assessment_digest_binds_sampleStop : digest (sampleStop false) = digest (sampleStop true) := by
  have htext : (canonical (sampleStop false)).dumps = (canonical (sampleStop true)).dumps := by decide +kernel
  have h := assessment_digest_binds (sampleStop false) (sampleStop true)
  refine (h.2 ?_).mpr (h.1.mp htext)
  rw [htext, Set.pair_eq_singleton]
  exact Set.injOn_singleton _ _

/-! ### The stored row -/

theorem same_reload_canonical {request : AssessmentCreate} :
    Same (canonical request) (canonical request).reload ↔ Kept request.parameters.json := by
  rw [same_reload_iff (wellFormed_canonical request), canonical, kept_obj]
  simp [Kept]

/-- **The stored row reproduces its digest** exactly when no number of its parameters is a
negative zero or a float from `1e16` on. -/
theorem assessment_reproduces_iff {s s' : Store} {actor : ActorContext} {request : AssessmentCreate} {id : Uuid}
    (h : s.insert (newAssessment actor request id) = .ok s')
    (hfree : Sha256.CollisionFree {(canonical request).reload.dumps, (canonical request).dumps}) :
    ∀ a ∈ s'.assessments, a.id = id → (a.Reproduces ↔ Kept request.parameters.json) := by
  intro a ha hid
  have hnew : (newAssessment actor request id).stored ∈ s'.assessments := by
    rw [insert_assessments h]
    exact List.mem_append_right _ (List.mem_singleton_self _)
  rw [s'.ids.eq ha hnew hid, ← same_reload_canonical]
  refine (prefixed_hexdigest_iff hfree).trans ⟨?_, ?_⟩
  · intro htext
    exact same_of_dumps_eq htext.symm
  · intro hsame
    have hwell := wellFormed_canonical request
    exact (dumps_eq_of_same hsame hwell (wellFormed_reload hwell)).symm

/-- A request with the amount `1e<exponent>`. -/
def sampleAmount (exponent : Int) : AssessmentCreate where
  actionType := "azure.vm.stop"
  targetResourceId := 8
  parameters := ⟨[("amount", .float (.finite (.powerOfTen exponent)))], by simp [WellFormed]⟩

/-- The assessment of the request. -/
def sampleAssessment (exponent : Int) : ChangeAssessment := newAssessment ⟨1, 5, 2, 4⟩ (sampleAmount exponent) 80

theorem assessment_reproduces_iff_sampleAmount : ∃ s', Store.empty.insert (sampleAssessment 15) = .ok s' ∧
    ∀ a ∈ s'.assessments, a.id = 80 → (a.Reproduces ↔ Kept (sampleAmount 15).parameters.json) := by
  have hok : (Store.empty.insert (sampleAssessment 15)).toOption.isSome = true := by decide +kernel
  obtain ⟨s', hs'⟩ := Option.isSome_iff_exists.mp hok
  replace hs' := Fallible.toOption_eq_some.mp hs'
  refine ⟨s', hs', assessment_reproduces_iff hs' ?_⟩
  have htext : (canonical (sampleAmount 15)).reload.dumps = (canonical (sampleAmount 15)).dumps := by decide +kernel
  rw [htext, Set.pair_eq_singleton]
  exact Set.injOn_singleton _ _

/-- `1e16` is stored, and hashes as `10000000000000000` when it is read back. -/
theorem amount_not_reproduced : ∃ s', Store.empty.insert (sampleAssessment 16) = .ok s' ∧
    ∃ a ∈ s'.assessments, ¬ a.Reproduces := by
  have hok : (Store.empty.insert (sampleAssessment 16)).toOption.isSome = true := by decide +kernel
  obtain ⟨s', hs'⟩ := Option.isSome_iff_exists.mp hok
  replace hs' := Fallible.toOption_eq_some.mp hs'
  refine ⟨s', hs', (sampleAssessment 16).stored, ?_, ?_⟩
  · rw [insert_assessments hs']
    exact List.mem_append_right _ (List.mem_singleton_self _)
  · unfold ChangeAssessment.Reproduces
    decide +kernel

end Sentinel.Intelligence
