import Sentinel.Relationships.Graph
import Sentinel.Relationships.Projection

/-! Edges that `rebuild_edges` finds again.

A candidate with no edge yet gets a new one, which carries all it says. A candidate whose
edge exists only has it made active with the new evidence: the confidence, the strength
and the version stay those of the call that inserted the row. So the active edges agree
with the candidates exactly when the rows found again do (`rebuilt_edges_agree_iff`). -/
namespace Sentinel.Relationships
open Library Library.Fallible Common

/-- What an edge has from its candidate and its extractor, besides the evidence. -/
structure Terms where
  confidence : ℚ
  dependencyStrength : String
  extractorVersion : String
  deriving DecidableEq

def Relationship.terms (e : Relationship) : Terms := ⟨e.confidence, e.dependencyStrength, e.extractorVersion⟩

/-- The terms of a candidate, as an insert stores them. -/
def EdgeCandidate.terms (c : EdgeCandidate) (extractor : Extractor) : Terms :=
  ⟨numeric43 c.confidence, c.dependencyStrength, extractor.version⟩

/-- The candidate names the target of the edge, and its type. -/
def Produces (tenantId : Uuid) (s : Store) (c : EdgeCandidate) (e : Relationship) : Prop :=
  (targetNode tenantId s c).map ResourceNode.inventoryResourceId = some e.targetResourceId ∧
    e.relationshipType = c.relationshipType

/-- Each active edge of the source and the extractor carries what the candidate that
produced it says. -/
def Agrees (tenantId source : Uuid) (extractor : Extractor) (candidates : List EdgeCandidate) (s : Store) : Prop :=
  ∀ e ∈ s.edges, ofExtractor tenantId source extractor e → e.isActive →
    ∃ c ∈ candidates, Produces tenantId s c e ∧ e.terms = c.terms extractor ∧ e.evidence = evidence c.evidencePath

/-- The row of an earlier call that a candidate finds. -/
def found (tenantId : Uuid) (current : List Relationship) (s : Store) (c : EdgeCandidate) : Option Relationship :=
  (targetNode tenantId s c).bind fun t =>
    current.find? fun e => e.targetResourceId = t.inventoryResourceId ∧ e.relationshipType = c.relationshipType

/-- The rows of earlier calls, as the query returns them. -/
def currentEdges (host : Host) (tenantId source : Uuid) (extractor : Extractor) (s : Store) : List Relationship :=
  host.edgeOrder.arrange 0 (s.edges.filter (ofExtractor tenantId source extractor))

/-- What no update of `rebuild_edges` changes of an edge. -/
def Relationship.lasting (e : Relationship) : Relationship :=
  {e with isActive := false, lastObservedAt := 0, evidence := Relationships.evidence ""}

theorem lasting_deactivate (tenantId source : Uuid) (extractor : Extractor) (e : Relationship) :
    (deactivate tenantId source extractor e).lasting = e.lasting := by
  rw [deactivate_eq]
  rfl

theorem lasting_reactivate (id : Uuid) (now : Instant) (path : String) (e : Relationship) :
    (reactivate id now path e).lasting = e.lasting := by
  rw [reactivate_eq]
  rfl

section Lasting
variable {e r : Relationship} (h : e.lasting = r.lasting)
include h

theorem id_of_lasting : e.id = r.id := by
  show e.lasting.id = r.lasting.id
  rw [h]

theorem terms_of_lasting : e.terms = r.terms := by
  show e.lasting.terms = r.lasting.terms
  rw [h]

theorem ofExtractor_of_lasting (tenantId source : Uuid) (extractor : Extractor) :
    ofExtractor tenantId source extractor e = ofExtractor tenantId source extractor r := by
  show ofExtractor tenantId source extractor e.lasting = ofExtractor tenantId source extractor r.lasting
  rw [h]

theorem produces_of_lasting {tenantId : Uuid} {s : Store} {c : EdgeCandidate} :
    Produces tenantId s c e ↔ Produces tenantId s c r := by
  show Produces tenantId s c e.lasting ↔ Produces tenantId s c r.lasting
  rw [h]

end Lasting

section Loop
variable {host : Host} {tenantId : Uuid} {source : ResourceNode} {extractor : Extractor}
  {current : List Relationship} {before s t : Store} {c : EdgeCandidate} {r : Relationship}

theorem found_eq_some (h : found tenantId current s c = some r) : r ∈ current ∧ Produces tenantId s c r := by
  unfold found at h
  obtain ⟨t, ht, hfind⟩ := Option.bind_eq_some_iff.mp h
  have hmatch := List.find?_some hfind
  obtain ⟨htarget, htype⟩ := of_decide_eq_true hmatch
  refine ⟨List.mem_of_find?_eq_some hfind, ?_, htype⟩
  rw [ht, htarget]
  rfl

/-- The candidate stands behind the edge: the evidence is its own, the other terms are its
own if it found no row, and else those of the row. -/
structure Made (tenantId : Uuid) (extractor : Extractor) (current : List Relationship) (before : Store)
    (c : EdgeCandidate) (e : Relationship) : Prop where
  produces : Produces tenantId before c e
  evidence : e.evidence = evidence c.evidencePath
  terms : e.terms = ((found tenantId current before c).map Relationship.terms).getD (c.terms extractor)

variable (tenantId source extractor current before) in
/-- The store inside the loop, after the candidates of `done`. -/
structure Reviving (done : List EdgeCandidate) (s : Store) : Prop where
  nodes : s.nodes = before.nodes
  old : ∀ r ∈ current, ∃ e ∈ s.edges, e.lasting = r.lasting
  made : ∀ e ∈ s.edges, ofExtractor tenantId source.inventoryResourceId extractor e → e.isActive →
    ∃ c ∈ done, Made tenantId extractor current before c e
  kept : ∀ c ∈ done, ∀ r, found tenantId current before c = some r →
    ∃ e ∈ s.edges, ofExtractor tenantId source.inventoryResourceId extractor e ∧ e.isActive ∧
      Produces tenantId before c e ∧ e.terms = r.terms

variable {done : List EdgeCandidate}

/-- A candidate that neither adds an edge nor finds one. -/
theorem Reviving.skip (h : Reviving tenantId source extractor current before done s)
    (hnone : found tenantId current before c = none) :
    Reviving tenantId source extractor current before (done ++ [c]) s where
  nodes := h.nodes
  old := h.old
  made := by
    intro e he hof hactive
    obtain ⟨d, hd, hmade⟩ := h.made e he hof hactive
    exact ⟨d, List.mem_append_left _ hd, hmade⟩
  kept := by
    intro d hd r hr
    cases List.mem_append.mp hd with
    | inl hd => exact h.kept d hd r hr
    | inr hd =>
      rw [List.mem_singleton.mp hd, hnone] at hr
      cases hr

theorem Reviving.insert (h : Reviving tenantId source extractor current before done s)
    (hnone : found tenantId current before c = none) {target : ResourceNode}
    (htarget : targetNode tenantId before c = some target) {id : Uuid} {now : Instant}
    (ht : s.insertEdge (newEdge id tenantId source.inventoryResourceId target.inventoryResourceId now extractor c) =
      .ok t) : Reviving tenantId source extractor current before (done ++ [c]) t := by
  obtain ⟨hnodes, hedges⟩ := Store.insertEdge_eq_ok ht
  have hskip := h.skip hnone
  constructor
  case nodes => exact hnodes.trans h.nodes
  case old =>
    intro r hr
    obtain ⟨e, he, hlasting⟩ := h.old r hr
    rw [hedges]
    exact ⟨e, List.mem_append_left _ he, hlasting⟩
  case made =>
    intro e he hof hactive
    rw [hedges] at he
    cases List.mem_append.mp he with
    | inl he => exact hskip.made e he hof hactive
    | inr he =>
      rw [List.mem_singleton.mp he]
      refine ⟨c, List.mem_append_right _ (List.mem_singleton_self c), ⟨?_, rfl⟩, rfl, ?_⟩
      · rw [htarget]
        rfl
      · rw [hnone]
        rfl
  case kept =>
    intro d hd r hr
    obtain ⟨e, he, hkept⟩ := hskip.kept d hd r hr
    rw [hedges]
    exact ⟨e, List.mem_append_left _ he, hkept⟩

/-- The row a candidate finds is the one made active. -/
theorem Reviving.reactivate (h : Reviving tenantId source extractor current before done s)
    (hcurrent : ∀ r ∈ current, ofExtractor tenantId source.inventoryResourceId extractor r)
    (hfound : found tenantId current before c = some r) (now : Instant) :
    Reviving tenantId source extractor current before (done ++ [c])
      (s.updateEdges (Relationships.reactivate r.id now c.evidencePath)
        (keepsEdge_reactivate r.id now c.evidencePath)) := by
  obtain ⟨hr, hproduces⟩ := found_eq_some hfound
  obtain ⟨row, hrow, hlasting⟩ := h.old r hr
  constructor
  case nodes => exact h.nodes
  case old =>
    intro q hq
    obtain ⟨e, he, hsame⟩ := h.old q hq
    exact ⟨_, List.mem_map_of_mem he, (lasting_reactivate _ _ _ e).trans hsame⟩
  case made =>
    intro e' he' hof hactive
    obtain ⟨e, he, rfl⟩ := List.mem_map.mp he'
    have hstays : (Relationships.reactivate r.id now c.evidencePath e).lasting = e.lasting :=
      lasting_reactivate _ _ _ e
    by_cases hid : e.id = r.id
    · obtain rfl : e = row := s.edgeIds.eq he hrow (hid.trans (id_of_lasting hlasting).symm)
      refine ⟨c, List.mem_append_right _ (List.mem_singleton_self c), ?_, ?_, ?_⟩
      · exact (produces_of_lasting (hstays.trans hlasting)).mpr hproduces
      · rw [reactivate_eq]
        exact if_pos hid
      · rw [hfound]
        exact terms_of_lasting (hstays.trans hlasting)
    · have hsame : Relationships.reactivate r.id now c.evidencePath e = e := if_neg hid
      rw [hsame] at hof hactive ⊢
      obtain ⟨d, hd, hmade⟩ := h.made e he hof hactive
      exact ⟨d, List.mem_append_left _ hd, hmade⟩
  case kept =>
    intro d hd q hq
    cases List.mem_append.mp hd with
    | inl hd =>
      obtain ⟨e, he, hof, hactive, hprod, hterms⟩ := h.kept d hd q hq
      have hstays : (Relationships.reactivate r.id now c.evidencePath e).lasting = e.lasting :=
        lasting_reactivate _ _ _ e
      refine ⟨_, List.mem_map_of_mem he, ?_, ?_, (produces_of_lasting hstays).mpr hprod,
        (terms_of_lasting hstays).trans hterms⟩
      · rw [ofExtractor_of_lasting hstays]
        exact hof
      · rw [reactivate_eq]
        simp [hactive]
    | inr hd =>
      obtain rfl := List.mem_singleton.mp hd
      obtain rfl := Option.some.inj (hfound.symm.trans hq)
      have hstays : (Relationships.reactivate r.id now d.evidencePath row).lasting = r.lasting :=
        (lasting_reactivate _ _ _ row).trans hlasting
      refine ⟨_, List.mem_map_of_mem hrow, ?_, ?_, (produces_of_lasting hstays).mpr hproduces,
        terms_of_lasting hstays⟩
      · rw [ofExtractor_of_lasting hstays]
        exact hcurrent r hr
      · rw [reactivate_eq]
        simp [id_of_lasting hlasting]

theorem reviving_rebuildEdge (h : Reviving tenantId source extractor current before done s)
    (hcurrent : ∀ r ∈ current, ofExtractor tenantId source.inventoryResourceId extractor r)
    (hloop : ∀ r ∈ current, r.sourceResourceId ≠ r.targetResourceId) (drawn : Nat) :
    Ends (fun _ => True) (fun r => Reviving tenantId source extractor current before (done ++ [c]) r.2)
      (rebuildEdge host tenantId source extractor current c drawn s) := by
  have hnodes : targetNode tenantId s c = targetNode tenantId before c := by
    unfold targetNode
    rw [h.nodes]
  rw [rebuildEdge, hnodes]
  cases htarget : targetNode tenantId before c with
  | none => exact h.skip (by simp [found, htarget])
  | some target =>
    have hfound : found tenantId current before c = current.find? fun e =>
        e.targetResourceId = target.inventoryResourceId ∧ e.relationshipType = c.relationshipType := by
      simp [found, htarget]
    show Ends _ _ (if _ then _ else _)
    split_ifs with hself
    · -- No row of the source leads back to it.
      apply h.skip
      rw [hfound, List.find?_eq_none]
      intro r hr hmatch
      have hsource : r.sourceResourceId = source.inventoryResourceId := (of_decide_eq_true (hcurrent r hr)).2.1
      have hends : r.targetResourceId = target.inventoryResourceId := (of_decide_eq_true hmatch).1
      exact hloop r hr (hsource.trans (hself.symm.trans hends.symm))
    · cases hfind : current.find? fun e =>
          e.targetResourceId = target.inventoryResourceId ∧ e.relationshipType = c.relationshipType with
      | none => exact (Ends.any fun t ht => h.insert (hfound.trans hfind) htarget ht).map fun _ ht => ht
      | some edge => exact h.reactivate hcurrent (hfound.trans hfind) (host.clock edge.id)

theorem reviving_rebuildLoop (candidates : List EdgeCandidate) (drawn : Nat)
    (h : Reviving tenantId source extractor current before done s)
    (hcurrent : ∀ r ∈ current, ofExtractor tenantId source.inventoryResourceId extractor r)
    (hloop : ∀ r ∈ current, r.sourceResourceId ≠ r.targetResourceId) :
    Ends (fun _ => True) (fun r => Reviving tenantId source extractor current before (done ++ candidates) r.2)
      (rebuildLoop host tenantId source extractor current candidates drawn s) := by
  induction candidates generalizing done drawn s with
  | nil =>
    rw [List.append_nil]
    exact h
  | cons c rest ih =>
    rw [rebuildLoop]
    apply (reviving_rebuildEdge h hcurrent hloop drawn).bind
    intro r hr
    rw [← List.singleton_append, ← List.append_assoc]
    exact ih r.1 hr

/-- Before the first candidate, no edge of the source and the extractor is active. -/
theorem reviving_start (hcurrent : ∀ r ∈ current, r ∈ before.edges) :
    Reviving tenantId source extractor current before []
      (before.updateEdges (deactivate tenantId source.inventoryResourceId extractor)
        (keepsEdge_deactivate tenantId source.inventoryResourceId extractor)) where
  nodes := rfl
  old := fun r hr => ⟨_, List.mem_map_of_mem (hcurrent r hr), lasting_deactivate _ _ _ r⟩
  made := by
    intro e' he' hof hactive
    obtain ⟨e, he, rfl⟩ := List.mem_map.mp he'
    rw [ofExtractor_of_lasting (lasting_deactivate _ _ _ e)] at hof
    rw [deactivate_eq] at hactive
    simp [hof] at hactive
  kept := fun c hc => nomatch hc

/-- The calls before decide: **the active edges of the source carry what the candidates say**
exactly when each row that a candidate finds again already has the confidence and the
strength of the candidate and the version of the extractor. -/
theorem rebuilt_edges_agree_iff (host : Host) (tenantId : Uuid) (source : ResourceNode) (extractor : Extractor)
    (candidates : List EdgeCandidate) (hdistinct : (candidates.map EdgeCandidate.targetResourceId).Nodup)
    (changed drawn : Nat) (s t : Store)
    (ht : rebuildEdges host tenantId source extractor candidates changed s = .ok (drawn, t)) :
    Agrees tenantId source.inventoryResourceId extractor candidates t ↔
      ∀ c ∈ candidates, ∀ r,
        found tenantId (currentEdges host tenantId source.inventoryResourceId extractor s) s c = some r →
          r.terms = c.terms extractor := by
  have hcurrent : ∀ r ∈ currentEdges host tenantId source.inventoryResourceId extractor s,
      r ∈ s.edges ∧ ofExtractor tenantId source.inventoryResourceId extractor r :=
    fun r hr => List.mem_filter.mp ((host.edgeOrder.perm _ _).mem_iff.mp hr)
  have hdone : Reviving tenantId source extractor
      (currentEdges host tenantId source.inventoryResourceId extractor s) s ([] ++ candidates) t :=
    (reviving_rebuildLoop candidates changed (reviving_start fun r hr => (hcurrent r hr).1)
      (fun r hr => (hcurrent r hr).2) fun r hr => s.noSelfLoop r (hcurrent r hr).1).of_ok ht
  rw [List.nil_append] at hdone
  have hproduces : ∀ c e, Produces tenantId t c e ↔ Produces tenantId s c e := by
    intro c e
    unfold Produces targetNode
    rw [hdone.nodes]
  refine ⟨?_, ?_⟩
  · intro hagrees c hc r hr
    obtain ⟨e, he, hof, hactive, hprod, hterms⟩ := hdone.kept c hc r hr
    obtain ⟨d, hd, hprod', hterms', _⟩ := hagrees e he hof hactive
    -- Two candidates that name one resource have one target.
    obtain ⟨u, hu, huid⟩ := Option.map_eq_some_iff.mp hprod.1
    obtain ⟨v, hv, hvid⟩ := Option.map_eq_some_iff.mp ((hproduces d e).mp hprod').1
    obtain ⟨humem, hukey⟩ := targetNode_eq_some hu
    obtain ⟨hvmem, hvkey⟩ := targetNode_eq_some hv
    have htarget : c.targetResourceId = d.targetResourceId :=
      target_of_resource humem hvmem hukey hvkey (huid.trans hvid.symm)
    obtain rfl := List.inj_on_of_nodup_map hdistinct hc hd htarget
    exact hterms.symm.trans hterms'
  · intro hterms e he hof hactive
    obtain ⟨c, hc, hmade⟩ := hdone.made e he hof hactive
    refine ⟨c, hc, (hproduces c e).mpr hmade.produces, ?_, hmade.evidence⟩
    rw [hmade.terms]
    cases hfound : found tenantId (currentEdges host tenantId source.inventoryResourceId extractor s) s c with
    | none => rfl
    | some r => exact hterms c hc r hfound

end Loop

/-- Resource 1 referred to resource 2 once; what that call said of it is given. -/
def sampleEarlier (terms : Terms) (hrange : 0 ≤ terms.confidence ∧ terms.confidence ≤ 1)
    (hstrength : terms.dependencyStrength ∈ ["hard", "soft", "association"]) : Store where
  nodes := [sampleNode 20 1 "a", sampleNode 21 2 "b"]
  edges := [{sampleEdge 10 1 2 with
    isActive := false
    confidence := terms.confidence
    dependencyStrength := terms.dependencyStrength
    extractorVersion := terms.extractorVersion}]
  nodeIds := sampleStore.nodeIds
  inventoryIds := sampleStore.inventoryIds
  armIds := sampleStore.armIds
  edgeIds := List.nodup_singleton _
  edgeKeys := List.nodup_singleton _
  noSelfLoop := by simp [sampleEdge]
  confidenceRange := List.forall_mem_singleton.mpr hrange
  strength := List.forall_mem_singleton.mpr hstrength

def sampleCandidate : EdgeCandidate := ArmReferenceExtractor.candidate "b" "$.id"

/-- A soft reference of version 0.9.0. -/
def sampleStale : Store := sampleEarlier ⟨1 / 2, "soft", "0.9.0"⟩ (by decide +kernel) (by decide)

/-- The call after it, of version 1.0.0, finds a hard one. -/
theorem stale_terms_sampleStale : ∃ drawn t,
    rebuildEdges (sampleHost 0 fun i => .ofNat 128 (30 + i)) 7 (sampleNode 20 1 "a")
      (armReferenceExtractor .ascii) [sampleCandidate] 0 sampleStale = .ok (drawn, t) ∧
    ¬ Agrees 7 1 (armReferenceExtractor .ascii) [sampleCandidate] t := by
  have hrows : (rebuildEdges (sampleHost 0 fun i => .ofNat 128 (30 + i)) 7 (sampleNode 20 1 "a")
      (armReferenceExtractor .ascii) [sampleCandidate] 0 sampleStale).toOption.map
        (fun r => r.2.edges.map fun e => (ofExtractor 7 1 (armReferenceExtractor .ascii) e, e.isActive, e.terms)) =
      some [(true, true, ⟨1 / 2, "soft", "0.9.0"⟩)] := by decide +kernel
  cases hcall : rebuildEdges (sampleHost 0 fun i => .ofNat 128 (30 + i)) 7 (sampleNode 20 1 "a")
      (armReferenceExtractor .ascii) [sampleCandidate] 0 sampleStale with
  | error f =>
    rw [hcall] at hrows
    cases hrows
  | ok r =>
    rw [hcall] at hrows
    refine ⟨r.1, r.2, rfl, fun hagrees => ?_⟩
    have hmap : r.2.edges.map (fun e => (ofExtractor 7 1 (armReferenceExtractor .ascii) e, e.isActive, e.terms)) =
        [(true, true, (⟨1 / 2, "soft", "0.9.0"⟩ : Terms))] := Option.some.inj hrows
    have hmem : (true, true, (⟨1 / 2, "soft", "0.9.0"⟩ : Terms)) ∈
        r.2.edges.map fun e => (ofExtractor 7 1 (armReferenceExtractor .ascii) e, e.isActive, e.terms) := by
      rw [hmap]
      exact List.mem_singleton_self _
    obtain ⟨e, he, heq⟩ := List.mem_map.mp hmem
    simp only [Prod.mk.injEq] at heq
    obtain ⟨c, hc, _, hterms, _⟩ := hagrees e he heq.1 heq.2.1
    obtain rfl := List.mem_singleton.mp hc
    have hversion := congrArg Terms.extractorVersion (heq.2.2.symm.trans hterms)
    exact absurd hversion (by decide)

/-- The same call, after one that said the same. -/
theorem rebuilt_edges_agree_sampleEarlier : ∃ drawn t,
    rebuildEdges (sampleHost 0 fun i => .ofNat 128 (30 + i)) 7 (sampleNode 20 1 "a")
      (armReferenceExtractor .ascii) [sampleCandidate] 0
      (sampleEarlier ⟨1, "hard", "1.0.0"⟩ (by decide +kernel) (by decide)) = .ok (drawn, t) ∧
    Agrees 7 1 (armReferenceExtractor .ascii) [sampleCandidate] t := by
  cases hcall : rebuildEdges (sampleHost 0 fun i => .ofNat 128 (30 + i)) 7 (sampleNode 20 1 "a")
      (armReferenceExtractor .ascii) [sampleCandidate] 0
      (sampleEarlier ⟨1, "hard", "1.0.0"⟩ (by decide +kernel) (by decide)) with
  | error f =>
    have hok : (rebuildEdges (sampleHost 0 fun i => .ofNat 128 (30 + i)) 7 (sampleNode 20 1 "a")
        (armReferenceExtractor .ascii) [sampleCandidate] 0
        (sampleEarlier ⟨1, "hard", "1.0.0"⟩ (by decide +kernel) (by decide))).isOk = true := by decide +kernel
    rw [hcall] at hok
    cases hok
  | ok r =>
    refine ⟨r.1, r.2, rfl, ?_⟩
    apply (rebuilt_edges_agree_iff _ 7 (sampleNode 20 1 "a") (armReferenceExtractor .ascii) [sampleCandidate]
      (by decide) 0 r.1 _ r.2 hcall).mpr
    intro c hc row hrow
    obtain rfl := List.mem_singleton.mp hc
    obtain ⟨hcurrent, _⟩ := found_eq_some hrow
    have hmem := List.mem_of_mem_filter hcurrent
    rw [List.mem_singleton.mp hmem]
    decide +kernel
end Sentinel.Relationships
