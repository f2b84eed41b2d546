import Sentinel.Library.Transition
import Sentinel.Relationships.Answers
import Sentinel.Relationships.Tenants

/-! Nodes of a type that no extractor supports.

Edges are made for the supported types alone, and only `rebuild_edges` takes them back,
which no call reaches for another type. So the edges of a resource outlive its type: the
nodes of unsupported types have no active edge exactly as long as no event gives such a
type to a resource with one (`unsupported_bare_iff`). -/
namespace Sentinel.Relationships
open Library Library.Fallible Library.Transition Common

def Unsupported (py : Python) (resourceType : String) : Prop :=
  ∀ extractor ∈ defaultExtractors py, ¬ extractor.supports resourceType

instance (py : Python) (resourceType : String) : Decidable (Unsupported py resourceType) :=
  inferInstanceAs (Decidable (∀ extractor ∈ defaultExtractors py, ¬ extractor.supports resourceType))

/-- The edge leaves the resource. -/
def Relationship.From (tenantId source : Uuid) (e : Relationship) : Prop :=
  e.tenantId = tenantId ∧ e.sourceResourceId = source

def HasActiveEdge (tenantId source : Uuid) (s : Store) : Prop :=
  ∃ e ∈ s.edges, e.From tenantId source ∧ e.isActive

/-- No active edge leaves a node of an unsupported type. -/
def UnsupportedBare (py : Python) (s : Store) : Prop :=
  ∀ n ∈ s.nodes, Unsupported py n.resourceType → ¬ HasActiveEdge n.tenantId n.inventoryResourceId s

/-- One call after another; one that fails changes nothing. -/
def serve (py : Python) (op : Operation) (s : Store) : Option Store := some (runOperation py op s).2

/-- An event that the table takes gives no unsupported type to a resource with an active edge. -/
def KeepsSupport (py : Python) (s : Store) (op : Operation) (_ : Store) : Prop :=
  match op with
  | .projectAndExtract _ event => updateTaken py event → Unsupported py (py.lower event.resourceType) →
      ¬ HasActiveEdge event.tenantId event.inventoryResourceId s
  | _ => True

/-! ### What a rebuild leaves alone -/

/-- The nodes are as they were, and so is each edge out of another resource. -/
structure Elsewhere (tenantId source : Uuid) (s t : Store) : Prop where
  nodes : t.nodes = s.nodes
  edges : ∀ e ∈ t.edges, e.From tenantId source ∨ e ∈ s.edges

section Rebuild
variable {py : Python} {host : Host} {tenantId source : Uuid} {s t u : Store}

theorem Elsewhere.refl (s : Store) : Elsewhere tenantId source s s := ⟨rfl, fun _ he => .inr he⟩

theorem Elsewhere.trans (h : Elsewhere tenantId source s t) (h' : Elsewhere tenantId source t u) :
    Elsewhere tenantId source s u := by
  refine ⟨h'.nodes.trans h.nodes, ?_⟩
  intro e he
  rcases h'.edges e he with hfrom | he
  · exact .inl hfrom
  · exact h.edges e he

theorem from_of_edgeKey {e r : Relationship} (h : e.edgeKey = r.edgeKey) :
    e.From tenantId source ↔ r.From tenantId source := by
  simp only [Relationship.edgeKey, Prod.mk.injEq] at h
  unfold Relationship.From
  rw [h.1, h.2.1]

theorem elsewhere_updateEdges {f : Relationship → Relationship} (hf : Store.KeepsEdge f)
    (hothers : ∀ e ∈ s.edges, ¬ e.From tenantId source → f e = e) :
    Elsewhere tenantId source s (s.updateEdges f hf) := by
  refine ⟨rfl, ?_⟩
  intro r hr
  obtain ⟨e, he, rfl⟩ := List.mem_map.mp hr
  by_cases hfrom : e.From tenantId source
  · exact .inl ((from_of_edgeKey (hf.edgeKey e)).mpr hfrom)
  · rw [hothers e he hfrom]
    exact .inr he

/-- The rows the loop over the candidates looks among leave the resource. -/
def Held (tenantId source : Uuid) (current : List Relationship) (s : Store) : Prop :=
  ∀ r ∈ current, ∀ e ∈ s.edges, e.id = r.id → e.From tenantId source

theorem Held.updateEdges {current : List Relationship} (h : Held tenantId source current s)
    {f : Relationship → Relationship} (hf : Store.KeepsEdge f) : Held tenantId source current (s.updateEdges f hf) := by
  intro r hr e' he' hid
  obtain ⟨e, he, rfl⟩ := List.mem_map.mp he'
  exact (from_of_edgeKey (hf.edgeKey e)).mpr (h r hr e he ((hf.id e).symm.trans hid))

variable {node : ResourceNode} {extractor : Extractor} {current : List Relationship}

theorem elsewhere_rebuildEdge (h : Held tenantId node.inventoryResourceId current s) (c : EdgeCandidate) (drawn : Nat) :
    Ends (fun _ => True) (fun r => Elsewhere tenantId node.inventoryResourceId s r.2 ∧
        Held tenantId node.inventoryResourceId current r.2)
      (rebuildEdge host tenantId node extractor current c drawn s) := by
  rw [rebuildEdge]
  cases targetNode tenantId s c with
  | none => exact ⟨.refl s, h⟩
  | some target =>
    show Ends _ _ (if _ then _ else _)
    split_ifs
    · exact ⟨.refl s, h⟩
    · cases hfind : current.find? fun e => e.targetResourceId = target.inventoryResourceId ∧
          e.relationshipType = c.relationshipType with
      | none =>
        refine Ends.map (Ends.any fun t ht => Store.insertEdge_eq_ok ht) ?_
        intro t ht
        -- The edge that is new leaves the resource.
        refine ⟨⟨ht.1, ?_⟩, ?_⟩
        · intro e he
          rw [ht.2] at he
          rcases List.mem_append.mp he with he | he
          · exact .inr he
          · rw [List.mem_singleton.mp he]
            exact .inl ⟨rfl, rfl⟩
        · intro r hr e he hid
          rw [ht.2] at he
          rcases List.mem_append.mp he with he | he
          · exact h r hr e he hid
          · rw [List.mem_singleton.mp he]
            exact ⟨rfl, rfl⟩
      | some edge =>
        have hkeeps : Store.KeepsEdge (reactivate edge.id (host.clock edge.id) c.evidencePath) :=
          keepsEdge_reactivate _ _ _
        refine ⟨elsewhere_updateEdges hkeeps ?_, h.updateEdges hkeeps⟩
        intro e he hfrom
        exact if_neg fun hid => hfrom (h edge (List.mem_of_find?_eq_some hfind) e he hid)

theorem elsewhere_rebuildLoop (candidates : List EdgeCandidate) (drawn : Nat)
    (h : Held tenantId node.inventoryResourceId current s) :
    Ends (fun _ => True) (fun r => Elsewhere tenantId node.inventoryResourceId s r.2)
      (rebuildLoop host tenantId node extractor current candidates drawn s) := by
  induction candidates generalizing drawn s with
  | nil => exact .refl s
  | cons c rest ih =>
    rw [rebuildLoop]
    apply (elsewhere_rebuildEdge h c drawn).bind
    intro r hr
    exact (ih r.1 hr.2).mono (fun _ hf => hf) fun _ hr' => hr.1.trans hr'

theorem elsewhere_rebuildEdges (candidates : List EdgeCandidate) (changed : Nat) :
    Ends (fun _ => True) (fun r => Elsewhere tenantId node.inventoryResourceId s r.2)
      (rebuildEdges host tenantId node extractor candidates changed s) := by
  have hheld : Held tenantId node.inventoryResourceId
      (host.edgeOrder.arrange 0 (s.edges.filter (ofExtractor tenantId node.inventoryResourceId extractor))) s := by
    intro r hr e he hid
    obtain ⟨hmem, hof⟩ := List.mem_filter.mp ((host.edgeOrder.perm 0 _).mem_iff.mp hr)
    rw [s.edgeIds.eq he hmem hid]
    exact ⟨(of_decide_eq_true hof).1, (of_decide_eq_true hof).2.1⟩
  have hdeactivated : Elsewhere tenantId node.inventoryResourceId s
      (s.updateEdges (deactivate tenantId node.inventoryResourceId extractor)
        (keepsEdge_deactivate tenantId node.inventoryResourceId extractor)) := by
    refine elsewhere_updateEdges _ fun e _ hfrom => if_neg fun hof => hfrom ?_
    exact ⟨(of_decide_eq_true hof).1, (of_decide_eq_true hof).2.1⟩
  exact (elsewhere_rebuildLoop candidates changed (hheld.updateEdges _)).mono (fun _ hf => hf)
    fun _ hr => hdeactivated.trans hr

theorem elsewhere_rebuildNode (extractors : List Extractor) (changed : Nat) :
    Ends (fun _ => True) (fun r => Elsewhere tenantId node.inventoryResourceId s r.2)
      (rebuildNode host tenantId node extractors changed s) := by
  induction extractors generalizing changed s with
  | nil => exact .refl s
  | cons extractor rest ih =>
    rw [rebuildNode]
    split_ifs
    · apply (elsewhere_rebuildEdges (extractor.extract node.properties) changed).bind
      intro r hr
      exact (ih r.1).mono (fun _ hf => hf) fun _ hr' => hr.trans hr'
    · exact ih changed

/-- For an unsupported type there is nothing to do. -/
theorem rebuildNode_unsupported (extractors : List Extractor) (changed : Nat)
    (h : ∀ extractor ∈ extractors, ¬ extractor.supports node.resourceType) :
    rebuildNode host tenantId node extractors changed s = .ok (changed, s) := by
  induction extractors with
  | nil => rfl
  | cons extractor rest ih =>
    rw [rebuildNode, if_neg (h extractor List.mem_cons_self)]
    exact ih fun x hx => h x (List.mem_cons_of_mem extractor hx)

/-- A rebuild of several nodes adds edges only to those of a supported type. -/
theorem rebuildNodes_supported (nodes : List ResourceNode) (changed : Nat) :
    Ends (fun _ => True) (fun r => r.2.nodes = s.nodes ∧ ∀ e ∈ r.2.edges, e ∈ s.edges ∨
        ∃ n ∈ nodes, ¬ Unsupported py n.resourceType ∧ e.From tenantId n.inventoryResourceId)
      (rebuildNodes py host tenantId nodes changed s) := by
  induction nodes generalizing changed s with
  | nil => exact ⟨rfl, fun _ he => .inl he⟩
  | cons node rest ih =>
    rw [rebuildNodes]
    have hnode : Ends (fun _ => True) (fun r : Nat × Store => r.2.nodes = s.nodes ∧ ∀ e ∈ r.2.edges,
        e ∈ s.edges ∨ ¬ Unsupported py node.resourceType ∧ e.From tenantId node.inventoryResourceId)
        (rebuildNode host tenantId node (defaultExtractors py) changed s) := by
      by_cases hsupport : Unsupported py node.resourceType
      · rw [rebuildNode_unsupported _ _ hsupport]
        exact ⟨rfl, fun _ he => .inl he⟩
      · apply (elsewhere_rebuildNode _ changed).mono fun _ hf => hf
        intro r hr
        exact ⟨hr.nodes, fun e he => (hr.edges e he).symm.imp_right fun hfrom => ⟨hsupport, hfrom⟩⟩
    apply hnode.bind
    intro r hr
    apply (ih r.1).mono fun _ hf => hf
    intro r' hr'
    refine ⟨hr'.1.trans hr.1, ?_⟩
    intro e he
    rcases hr'.2 e he with he | ⟨n, hn, hmade⟩
    · exact (hr.2 e he).imp_right fun hmade => ⟨node, List.mem_cons_self, hmade⟩
    · exact .inr ⟨n, List.mem_cons_of_mem node hn, hmade⟩

end Rebuild

/-! ### Calls -/

section Calls
variable {py : Python} {host : Host} {tenantId : Uuid} {event : ResourceProjectionEvent} {s t : Store} {changed : Nat}

/-- The nodes after an event: the one it is about has its type, the others are as they were. -/
structure Upserted (py : Python) (event : ResourceProjectionEvent) (s : Store) (node : ResourceNode) (t : Store) :
    Prop where
  edges : t.edges = s.edges
  node : node.inventoryResourceId = event.inventoryResourceId ∧ node.resourceType = py.lower event.resourceType
  stored : ∃ n ∈ t.nodes, n.inventoryKey = (event.tenantId, event.inventoryResourceId)
  typed : ∀ n ∈ t.nodes, n.inventoryKey = (event.tenantId, event.inventoryResourceId) →
    n.resourceType = py.lower event.resourceType
  others : ∀ n ∈ t.nodes, n.inventoryKey ≠ (event.tenantId, event.inventoryResourceId) → n ∈ s.nodes

theorem upserted_upsertNode :
    Ends (fun _ => True) (fun r => Upserted py event s r.1 r.2) (upsertNode py host event s) := by
  unfold upsertNode
  cases hfind : s.nodes.find? fun n => n.inventoryKey = (event.tenantId, event.inventoryResourceId) with
  | none =>
    show Ends _ _ (if _ then _ else _)
    split_ifs
    · refine Ends.map (Ends.any fun t ht => Store.insertNode_eq_ok ht) ?_
      intro t ht
      have hnew : (newNode py host.nodeId event).stored ∈ t.nodes := by
        rw [ht.1]
        exact List.mem_append_right _ (List.mem_singleton_self _)
      refine ⟨ht.2, ⟨rfl, rfl⟩, ⟨_, hnew, rfl⟩, ?_, ?_⟩
      · intro n hn hkey
        rw [t.inventoryIds.eq hn hnew hkey]
        rfl
      · intro n hn hkey
        rw [ht.1] at hn
        rcases List.mem_append.mp hn with hn | hn
        · exact hn
        · rw [List.mem_singleton.mp hn] at hkey
          exact absurd rfl hkey
    · trivial
  | some node =>
    have hkey : node.inventoryKey = (event.tenantId, event.inventoryResourceId) := by
      simpa using List.find?_some hfind
    show Ends _ _ (if _ then _ else _)
    split_ifs
    · have hkeeps := (keepsNode_updateNode py event).inventoryKey
      refine ⟨rfl, ⟨congrArg Prod.snd hkey, rfl⟩, ⟨_, List.mem_map_of_mem (List.mem_of_find?_eq_some hfind),
        (hkeeps node).trans hkey⟩, ?_, ?_⟩
      · intro n' hn' hkey'
        obtain ⟨n, hn, rfl⟩ := List.mem_map.mp hn'
        rw [updateNode, if_pos ((hkeeps n).symm.trans hkey')]
        rfl
      · intro n' hn' hkey'
        obtain ⟨n, hn, rfl⟩ := List.mem_map.mp hn'
        have hsame : updateNode py event n = n := if_neg fun h => hkey' ((hkeeps n).trans h)
        rw [hsame]
        exact hn
    · trivial

theorem hasActiveEdge_congr {tenantId source : Uuid} (h : t.edges = s.edges) :
    HasActiveEdge tenantId source t ↔ HasActiveEdge tenantId source s := by
  unfold HasActiveEdge
  rw [h]

theorem unsupportedBare_project (hbare : UnsupportedBare py s)
    (h : projectAndExtract py host event s = .ok (changed, t)) :
    UnsupportedBare py t ↔ (Unsupported py (py.lower event.resourceType) →
      ¬ HasActiveEdge event.tenantId event.inventoryResourceId s) := by
  obtain ⟨⟨node, u⟩, hupsert, hrebuild⟩ := bind_eq_ok.mp h
  have hupserted : Upserted py event s node u := upserted_upsertNode.of_ok hupsert
  replace hrebuild : rebuildNode host event.tenantId node (defaultExtractors py) 0 u = .ok (changed, t) := hrebuild
  by_cases hsupport : Unsupported py (py.lower event.resourceType)
  · rw [← hupserted.node.2] at hsupport
    rw [rebuildNode_unsupported _ _ hsupport] at hrebuild
    cases hrebuild
    rw [hupserted.node.2] at hsupport
    refine ⟨fun hafter _ => ?_, fun hnone => ?_⟩
    · obtain ⟨n, hn, hkey⟩ := hupserted.stored
      rw [← hasActiveEdge_congr hupserted.edges, ← (Prod.mk.inj hkey).1, ← (Prod.mk.inj hkey).2]
      exact hafter n hn (hupserted.typed n hn hkey ▸ hsupport)
    · intro n hn htype
      rw [hasActiveEdge_congr hupserted.edges]
      by_cases hkey : n.inventoryKey = (event.tenantId, event.inventoryResourceId)
      · rw [(Prod.mk.inj hkey).1, (Prod.mk.inj hkey).2]
        exact hnone hsupport
      · exact hbare n (hupserted.others n hn hkey) htype
  · refine iff_of_true ?_ fun hunsupported => absurd hunsupported hsupport
    have helsewhere : Elsewhere event.tenantId node.inventoryResourceId u t :=
      (elsewhere_rebuildNode _ 0).of_ok hrebuild
    intro n hn htype
    rw [helsewhere.nodes] at hn
    have hkey : n.inventoryKey ≠ (event.tenantId, event.inventoryResourceId) :=
      fun hkey => hsupport (hupserted.typed n hn hkey ▸ htype)
    rintro ⟨e, he, hfrom, hactive⟩
    rcases helsewhere.edges e he with hnode | he
    · apply hkey
      rw [← hupserted.node.1]
      exact Prod.ext (hfrom.1.symm.trans hnode.1) (hfrom.2.symm.trans hnode.2)
    · rw [hupserted.edges] at he
      exact hbare n (hupserted.others n hn hkey) htype ⟨e, he, hfrom, hactive⟩

theorem unsupportedBare_rebuildAll (hbare : UnsupportedBare py s)
    (h : rebuildAll py host tenantId s = .ok (changed, t)) :
    UnsupportedBare py t := by
  obtain ⟨hnodes, hedges⟩ := (rebuildNodes_supported _ 0).of_ok h
  intro n hn htype
  rw [hnodes] at hn
  rintro ⟨e, he, hfrom, hactive⟩
  rcases hedges e he with he | ⟨m, hm, hsupport, hmade⟩
  · exact hbare n hn htype ⟨e, he, hfrom, hactive⟩
  · obtain ⟨hm, hlisted⟩ := List.mem_filter.mp ((host.nodeOrder.perm 0 _).mem_iff.mp hm)
    have htenant : m.tenantId = tenantId := (of_decide_eq_true hlisted).1
    have hkey : m.inventoryKey = n.inventoryKey :=
      Prod.ext (htenant.trans (hmade.1.symm.trans hfrom.1)) (hmade.2.symm.trans hfrom.2)
    exact hsupport (s.inventoryIds.eq hm hn hkey ▸ htype)

/-- An event of a resource with an edge is refused only for its values. -/
theorem projectAndExtract_returns (hreferential : Referential s) (htaken : updateTaken py event)
    (hunsupported : Unsupported py (py.lower event.resourceType))
    (hactive : HasActiveEdge event.tenantId event.inventoryResourceId s) :
    ∃ r, projectAndExtract py host event s = .ok r := by
  obtain ⟨e, he, hfrom, _⟩ := hactive
  obtain ⟨n, hn, hkey⟩ := List.mem_map.mp (hreferential e he).1
  rw [hfrom.1, hfrom.2] at hkey
  unfold projectAndExtract upsertNode
  cases hfind : s.nodes.find? fun n => n.inventoryKey = (event.tenantId, event.inventoryResourceId) with
  | none => exact absurd hkey (by simpa using List.find?_eq_none.mp hfind n hn)
  | some node =>
    refine ⟨(0, s.updateNodes (updateNode py event) (keepsNode_updateNode py event)), ?_⟩
    show Except.bind (if _ then _ else _) _ = _
    rw [if_pos htaken]
    exact rebuildNode_unsupported _ _ hunsupported

theorem referential_runOperation (h : Referential s) (op : Operation) : Referential (runOperation py op s).2 := by
  cases op with
  | projectAndExtract host event =>
    exact transaction_state h fun n t ht => (referential_projectAndExtract h event).of_ok ht
  | rebuildAll host tenantId => exact transaction_state h fun n t ht => (referential_rebuildAll h).of_ok ht
  | graph | listEdges => exact h

/-- Whether a call keeps the nodes of unsupported types bare. -/
theorem unsupportedBare_runOperation (hreferential : Referential s) (hbare : UnsupportedBare py s) (op : Operation) :
    UnsupportedBare py (runOperation py op s).2 ↔ KeepsSupport py s op (runOperation py op s).2 := by
  cases op with
  | projectAndExtract host event =>
    show UnsupportedBare py (transaction (projectAndExtract py host event s) s).2 ↔ _
    cases hcall : projectAndExtract py host event s with
    | ok r =>
      have htaken : updateTaken py event := by
        unfold projectAndExtract upsertNode at hcall
        obtain ⟨_, hupsert, _⟩ := bind_eq_ok.mp hcall
        split at hupsert
        · split_ifs at hupsert with hinsert
          unfold insertTaken at hinsert
          exact (Bool.and_eq_true_iff.mp hinsert).1
        · split_ifs at hupsert with hupdate
          exact hupdate
      exact (unsupportedBare_project hbare hcall).trans ⟨fun h _ => h, fun h => h htaken⟩
    | error f =>
      refine iff_of_true hbare fun htaken hunsupported hactive => ?_
      obtain ⟨r, hr⟩ := projectAndExtract_returns hreferential htaken hunsupported hactive
      cases hcall.symm.trans hr
  | rebuildAll host tenantId =>
    exact iff_of_true (transaction_state hbare fun n t ht => unsupportedBare_rebuildAll hbare ht) trivial
  | graph | listEdges => exact iff_of_true hbare trivial

end Calls

/-- Whatever is projected and rebuilt: **no active edge leaves a node that no extractor
supports** after any of the calls, exactly if no event gives a resource such a type while an
active edge leaves it. -/
theorem unsupported_bare_iff (py : Python) (ops : List Operation) :
    Always (serve py) (UnsupportedBare py) ops .empty ↔ EveryStep (serve py) (KeepsSupport py) ops .empty := by
  apply always_iff_everyStep (I := Referential) (N := fun _ => True)
  case hI => exact fun e he => nomatch he
  case hP => exact fun n hn => nomatch hn
  case hN => exact Always.of_invariant _ trivial fun _ _ _ _ _ => trivial
  case preserved =>
    intro op s t h ht
    cases ht
    exact referential_runOperation h op
  case decides =>
    intro op s t hreferential _ _ hbare ht
    cases ht
    exact unsupportedBare_runOperation hreferential hbare op

/-- Resource 1 names resource 2; its type is then reported empty. -/
def retypedCalls : List Operation :=
  [.projectAndExtract (sampleHost 21 fun i => .ofNat 128 (40 + i)) (sampleEvent 2 "b" "b"),
    .projectAndExtract (sampleHost 20 fun i => .ofNat 128 (30 + i)) (sampleEvent 1 "a" "b"),
    .projectAndExtract (sampleHost 22 fun i => .ofNat 128 (50 + i)) {sampleEvent 1 "a" "b" with resourceType := ""}]

/-- The edge from 1 to 2 is still active. -/
theorem retyped_not_bare : ¬ Always (serve .ascii) (UnsupportedBare .ascii) retypedCalls .empty := by
  intro h
  have hend : (run (serve .ascii) retypedCalls .empty).map (fun s => s.nodes.any fun n =>
      Unsupported .ascii n.resourceType ∧ s.edges.any fun e =>
        e.tenantId = n.tenantId ∧ e.sourceResourceId = n.inventoryResourceId ∧ e.isActive) = some true := by
    decide +kernel
  obtain ⟨s, hrun, hactive⟩ := Option.map_eq_some_iff.mp hend
  obtain ⟨n, hn, hleft⟩ := List.any_eq_true.mp hactive
  obtain ⟨htype, hedge⟩ := of_decide_eq_true hleft
  obtain ⟨e, he, hfrom⟩ := List.any_eq_true.mp hedge
  obtain ⟨htenant, hsource, heactive⟩ := of_decide_eq_true hfrom
  exact h.last hrun n hn htype ⟨e, he, ⟨htenant, hsource⟩, heactive⟩

end Sentinel.Relationships
