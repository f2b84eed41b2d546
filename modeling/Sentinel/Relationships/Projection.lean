import Sentinel.Relationships.Rebuild

/-! Projecting the resources of a tenant and then rebuilding all edges.

Whatever the order of the events, the edges out of a resource of a supported type are in
the end those its latest properties ask for, among the resources projected
(`rebuilt_reference`). -/
namespace Sentinel.Relationships
open Library Library.Fallible Common

/-- A call of `project_and_extract`, a unit of work of its own. -/
structure Call where
  host : Host
  event : ResourceProjectionEvent

structure Progress where
  store : Store
  /-- The events whose call returned. -/
  accepted : List ResourceProjectionEvent
  /-- How the other calls failed; each was rolled back. -/
  failures : List Failure

section Run
variable (py : Python)

def attempt (p : Progress) (c : Call) : Progress :=
  match projectAndExtract py c.host c.event p.store with
  | .ok (_, s) => {p with store := s, accepted := p.accepted ++ [c.event]}
  | .error f => {p with failures := p.failures ++ [f]}

def project (s : Store) (calls : List Call) : Progress := calls.foldl (attempt py) ⟨s, [], []⟩

/-- The latest event of a resource. -/
def latest (events : List ResourceProjectionEvent) (x : Uuid) : Option ResourceProjectionEvent :=
  (events.filter fun e => e.inventoryResourceId = x).getLast?

/-- A resource carries one ARM id up to case, and no two carry the same. -/
def OneArmId (events : List ResourceProjectionEvent) : Prop :=
  ∀ e ∈ events, ∀ f ∈ events, e.inventoryResourceId = f.inventoryResourceId ↔
    py.lower e.azureResourceId = py.lower f.azureResourceId

/-- The tenant's tables are empty, and the calls are for it. -/
structure FromEmpty (tenantId : Uuid) (s : Store) (calls : List Call) : Prop where
  nodes : ∀ n ∈ s.nodes, n.tenantId ≠ tenantId
  edges : ∀ e ∈ s.edges, e.tenantId ≠ tenantId
  tenant : ∀ c ∈ calls, c.event.tenantId = tenantId
  armIds : OneArmId py (calls.map Call.event)

/-! ### What the rebuilt graph should be -/

/-- The latest type of the resource is one the extractor supports. -/
def Supported (events : List ResourceProjectionEvent) (a : Uuid) : Prop :=
  ∃ e, latest events a = some e ∧ ArmReferenceExtractor.supports (py.lower e.resourceType)

/-- The latest properties of `a` name the ARM id of `b`, another resource. -/
def Refers (events : List ResourceProjectionEvent) (a b : Uuid) : Prop :=
  b ≠ a ∧ ∃ e f, latest events a = some e ∧ latest events b = some f ∧
    py.lower f.azureResourceId ∈
      (ArmReferenceExtractor.extract py e.properties).map EdgeCandidate.targetResourceId

end Run

/-- The active edges from `a` to `b`, of any type. -/
def activeRows (tenantId : Uuid) (s : Store) (a b : Uuid) : List Relationship :=
  s.edges.filter fun e => e.tenantId = tenantId ∧ e.isActive ∧ e.sourceResourceId = a ∧ e.targetResourceId = b

theorem latest_snoc (events : List ResourceProjectionEvent) (e : ResourceProjectionEvent) (x : Uuid) :
    latest (events ++ [e]) x = if e.inventoryResourceId = x then some e else latest events x := by
  unfold latest
  rw [List.filter_append, List.filter_singleton]
  split_ifs with h <;> simp [h]

theorem mem_of_latest {events : List ResourceProjectionEvent} {x : Uuid} {e : ResourceProjectionEvent}
    (h : latest events x = some e) : e ∈ events ∧ e.inventoryResourceId = x := by
  have hmem := List.mem_filter.mp (List.mem_of_getLast? h)
  exact ⟨hmem.1, by simpa using hmem.2⟩

/-! ### Projecting one event -/

/-- The node shows the event. -/
structure Reflects (py : Python) (e : ResourceProjectionEvent) (n : ResourceNode) : Prop where
  normalizedResourceId : n.normalizedResourceId = py.lower e.azureResourceId
  resourceType : n.resourceType = py.lower e.resourceType
  properties : n.properties = e.properties.reload
  isActive : n.isActive

/-- The nodes of the tenant show the latest events. -/
structure Projected (py : Python) (tenantId : Uuid) (accepted : List ResourceProjectionEvent) (s : Store) :
    Prop where
  node : ∀ n ∈ s.nodes, n.tenantId = tenantId →
    ∃ e, latest accepted n.inventoryResourceId = some e ∧ Reflects py e n
  covered : ∀ e ∈ accepted, (tenantId, e.inventoryResourceId) ∈ s.nodes.map ResourceNode.inventoryKey
  madeBy : MadeBy tenantId (armReferenceExtractor py) s

section Project
variable {py : Python} {tenantId : Uuid} {accepted : List ResourceProjectionEvent} {s : Store}
  {event : ResourceProjectionEvent}

theorem projected_insert (h : Projected py tenantId accepted s) (htenant : event.tenantId = tenantId)
    (harm : OneArmId py (accepted ++ [event])) {id : Uuid}
    (hnew : (tenantId, event.inventoryResourceId) ∉ s.nodes.map ResourceNode.inventoryKey) :
    Ends (· = .primaryKey) (Projected py tenantId (accepted ++ [event]))
      (s.insertNode (newNode py id event).stored) := by
  have hkey : (newNode py id event).stored.inventoryKey = (tenantId, event.inventoryResourceId) := by
    rw [← htenant]
    rfl
  unfold Store.insertNode
  split_ifs with hid hinventory harmKey
  case pos => rfl
  case pos => exact absurd (hkey ▸ hinventory) hnew
  case pos =>
    -- A node with this ARM id would be the node of the event's resource.
    obtain ⟨n, hn, hnkey⟩ := List.mem_map.mp harmKey
    have hntenant : n.tenantId = tenantId := (congrArg Prod.fst hnkey).trans htenant
    obtain ⟨e, he, hreflects⟩ := h.node n hn hntenant
    obtain ⟨hmem, hresource⟩ := mem_of_latest he
    have hlower : py.lower e.azureResourceId = py.lower event.azureResourceId :=
      hreflects.normalizedResourceId.symm.trans (congrArg Prod.snd hnkey)
    have hsame := (harm e (by simp [hmem]) event (by simp)).mpr hlower
    refine absurd (List.mem_map.mpr ⟨n, hn, ?_⟩) hnew
    rw [ResourceNode.inventoryKey, hntenant, ← hresource, hsame]
  case neg =>
    refine ⟨?_, ?_, h.madeBy.of_edges rfl⟩
    · intro n hn hntenant
      rw [latest_snoc]
      cases List.mem_append.mp hn with
      | inl hn =>
        rw [if_neg fun heq => hnew (List.mem_map.mpr ⟨n, hn, Prod.ext hntenant heq.symm⟩)]
        exact h.node n hn hntenant
      | inr hn =>
        rw [List.mem_singleton.mp hn]
        exact ⟨event, if_pos rfl, rfl, rfl, rfl, rfl⟩
    · intro e he
      rw [List.map_append, List.mem_append]
      cases List.mem_append.mp he with
      | inl he => exact .inl (h.covered e he)
      | inr he =>
        rw [List.mem_singleton.mp he, ← hkey]
        exact .inr (List.mem_singleton_self _)

theorem projected_update (h : Projected py tenantId accepted s) (htenant : event.tenantId = tenantId)
    (harm : OneArmId py (accepted ++ [event]))
    (hold : (tenantId, event.inventoryResourceId) ∈ s.nodes.map ResourceNode.inventoryKey) :
    Projected py tenantId (accepted ++ [event])
      (s.updateNodes (updateNode py event) (keepsNode_updateNode py event)) := by
  have hkeys : (s.nodes.map (updateNode py event)).map ResourceNode.inventoryKey =
      s.nodes.map ResourceNode.inventoryKey := Table.map_rewrite (keepsNode_updateNode py event).inventoryKey
  refine ⟨?_, ?_, h.madeBy.of_edges rfl⟩
  · intro n hn hntenant
    obtain ⟨m, hm, rfl⟩ := List.mem_map.mp hn
    rw [latest_snoc, updateNode] at *
    split_ifs at hntenant ⊢ with hkey heq heq
    · obtain ⟨e, he, hreflects⟩ := h.node m hm ((congrArg Prod.fst hkey).trans htenant)
      obtain ⟨hmem, hresource⟩ := mem_of_latest he
      have hsame : e.inventoryResourceId = event.inventoryResourceId := hresource.trans heq.symm
      have hlower := (harm e (by simp [hmem]) event (by simp)).mp hsame
      exact ⟨event, rfl, hreflects.normalizedResourceId.trans hlower, rfl, rfl, rfl⟩
    · exact absurd (congrArg Prod.snd hkey).symm heq
    · exact absurd (Prod.ext (hntenant.trans htenant.symm) heq.symm) hkey
    · exact h.node m hm hntenant
  · intro e he
    show _ ∈ (s.nodes.map (updateNode py event)).map ResourceNode.inventoryKey
    rw [hkeys]
    cases List.mem_append.mp he with
    | inl he => exact h.covered e he
    | inr he =>
      rw [List.mem_singleton.mp he]
      exact hold

/-- A call keeps the nodes in step with the events, or fails on a value or an id. -/
theorem projectAndExtract_spec (h : Projected py tenantId accepted s) (htenant : event.tenantId = tenantId)
    (harm : OneArmId py (accepted ++ [event])) (host : Host) :
    Ends (fun f => f = .refused ∨ f = .primaryKey) (fun r => Projected py tenantId (accepted ++ [event]) r.2)
      (projectAndExtract py host event s) := by
  have hupsert : Ends (fun f => f = .refused ∨ f = .primaryKey)
      (fun r => Projected py tenantId (accepted ++ [event]) r.2) (upsertNode py host event s) := by
    unfold upsertNode
    cases hfind : s.nodes.find? fun n => n.inventoryKey = (event.tenantId, event.inventoryResourceId) with
    | none =>
      have hnew : (tenantId, event.inventoryResourceId) ∉ s.nodes.map ResourceNode.inventoryKey := by
        rw [← htenant]
        simpa using List.find?_eq_none.mp hfind
      show Ends _ _ (if _ then _ else _)
      split_ifs
      · exact ((projected_insert h htenant harm hnew).mono (fun f hf => .inr hf) fun _ hr => hr).map
          fun _ hr => hr
      · exact .inl rfl
    | some node =>
      have hold : (tenantId, event.inventoryResourceId) ∈ s.nodes.map ResourceNode.inventoryKey := by
        rw [← htenant]
        exact List.mem_map.mpr ⟨node, List.mem_of_find?_eq_some hfind, by simpa using List.find?_some hfind⟩
      show Ends _ _ (if _ then _ else _)
      split_ifs
      · exact projected_update h htenant harm hold
      · exact .inl rfl
  refine hupsert.bind fun r hr => ?_
  have hshows : Shows host tenantId (armReferenceExtractor py) (r.2.edges.map Relationship.id) r.2.nodes
      (Arrow tenantId r.2) 0 r.2 :=
    ⟨rfl, hr.madeBy, fun e he => .inl (List.mem_map_of_mem he), fun _ _ => Iff.rfl⟩
  rw [htenant]
  refine (rebuildNode_spec hshows).mono (fun f hf => .inr hf.1) fun r' hr' => ?_
  refine ⟨?_, ?_, hr'.2.madeBy⟩
  · rw [hr'.2.nodes]
    exact hr.node
  · rw [hr'.2.nodes]
    exact hr.covered

end Project

/-! ### Whole runs -/

section Runs
variable {py : Python} {tenantId : Uuid} {s : Store} {calls : List Call}

theorem OneArmId.mono {events events' : List ResourceProjectionEvent} (h : OneArmId py events)
    (hsub : ∀ e ∈ events', e ∈ events) : OneArmId py events' :=
  fun e he f hf => h e (hsub e he) f (hsub f hf)

/-- What holds after any calls on empty tables. -/
structure Sound (py : Python) (tenantId : Uuid) (calls : List Call) (p : Progress) : Prop where
  projected : Projected py tenantId p.accepted p.store
  accepted : ∀ e ∈ p.accepted, e ∈ calls.map Call.event
  failures : ∀ f ∈ p.failures, f = .refused ∨ f = .primaryKey

theorem sound_attempt {p : Progress} (h : Sound py tenantId calls p) {c : Call}
    (htenant : c.event.tenantId = tenantId) (harm : OneArmId py ((calls ++ [c]).map Call.event)) :
    Sound py tenantId (calls ++ [c]) (attempt py p c) := by
  have hsub : ∀ e ∈ p.accepted ++ [c.event], e ∈ (calls ++ [c]).map Call.event := by
    intro e he
    rw [List.map_append, List.mem_append]
    exact (List.mem_append.mp he).imp_left (h.accepted e)
  have hspec := projectAndExtract_spec h.projected htenant (harm.mono hsub) c.host
  unfold attempt
  cases hcall : projectAndExtract py c.host c.event p.store with
  | ok r => exact ⟨hspec.of_ok hcall, hsub, h.failures⟩
  | error f =>
    refine ⟨h.projected, fun e he => hsub e (List.mem_append_left _ he), ?_⟩
    intro g hg
    cases List.mem_append.mp hg with
    | inl hg => exact h.failures g hg
    | inr hg =>
      rw [List.mem_singleton.mp hg]
      exact hspec.of_error hcall

theorem sound_project (h : FromEmpty py tenantId s calls) : Sound py tenantId calls (project py s calls) := by
  obtain ⟨hnodes, hedges, htenant, harm⟩ := h
  induction calls using List.reverseRecOn with
  | nil =>
    refine ⟨⟨fun n hn hntenant => absurd hntenant (hnodes n hn), by simp [project], ?_⟩,
      by simp [project], by simp [project]⟩
    constructor <;> exact fun e he hetenant => absurd hetenant (hedges e he)
  | append_singleton calls c ih =>
    rw [project, List.foldl_append]
    refine sound_attempt (ih ?_ ?_) (htenant c (by simp)) harm
    · exact fun d hd => htenant d (List.mem_append_left _ hd)
    · exact harm.mono (by simp +contextual)

/-- What `rebuild_all` asks of a node is what the latest events ask. -/
theorem wanted_iff {accepted : List ResourceProjectionEvent} (h : Projected py tenantId accepted s)
    {n : ResourceNode} {e : ResourceProjectionEvent} (he : latest accepted n.inventoryResourceId = some e)
    (hreflects : Reflects py e n) (b : Uuid) :
    Wanted py tenantId s.nodes n b ↔ Refers py accepted n.inventoryResourceId b := by
  have htargets : ∀ target, (∃ c ∈ ArmReferenceExtractor.extract py n.properties, c.targetResourceId = target) ↔
      target ∈ (ArmReferenceExtractor.extract py e.properties).map EdgeCandidate.targetResourceId := by
    intro target
    rw [ArmReferenceExtractor.mem_extract, ← ArmReferenceExtractor.target_reload, ← hreflects.properties,
      ← ArmReferenceExtractor.mem_extract, List.mem_map]
  refine ⟨?_, ?_⟩
  · intro hwanted
    obtain ⟨c, hc, hne, t, ht, hkey, rfl⟩ := hwanted
    obtain ⟨f, hf, htreflects⟩ := h.node t ht (congrArg Prod.fst hkey)
    refine ⟨hne, e, f, he, hf, (htargets _).mp ⟨c, hc, ?_⟩⟩
    rw [← htreflects.normalizedResourceId]
    exact (congrArg Prod.snd hkey).symm
  · intro hrefers
    obtain ⟨hne, e', f, he', hf, htarget⟩ := hrefers
    obtain rfl : e = e' := Option.some.inj (he.symm.trans he')
    obtain ⟨c, hc, hctarget⟩ := (htargets _).mpr htarget
    obtain ⟨hfmem, hfb⟩ := mem_of_latest hf
    obtain ⟨t, ht, htkey⟩ := List.mem_map.mp (h.covered f hfmem)
    have hresource : t.inventoryResourceId = f.inventoryResourceId := congrArg Prod.snd htkey
    have httenant : t.tenantId = tenantId := congrArg Prod.fst htkey
    obtain ⟨g, hg, htreflects⟩ := h.node t ht httenant
    rw [hresource, hfb, hf] at hg
    obtain rfl := Option.some.inj hg
    refine ⟨c, hc, hne, t, ht, Prod.ext httenant ?_, hresource.trans hfb⟩
    exact htreflects.normalizedResourceId.trans hctarget.symm

/-- One row at most joins two resources. -/
theorem activeRows_of_arrow {extractor : Extractor} (h : MadeBy tenantId extractor s) {a b : Uuid} :
    (Arrow tenantId s a b → (activeRows tenantId s a b).map Relationship.relationshipType = ["references"]) ∧
      (¬ Arrow tenantId s a b → activeRows tenantId s a b = []) := by
  have hmem : ∀ e, e ∈ activeRows tenantId s a b ↔ e ∈ s.edges ∧ e.tenantId = tenantId ∧ e.isActive ∧
      e.sourceResourceId = a ∧ e.targetResourceId = b := by
    intro e
    rw [activeRows, List.mem_filter, decide_eq_true_iff]
  have hnodup : (activeRows tenantId s a b).Nodup := s.edgeIds.of_map.filter _
  have hone : ∀ e ∈ activeRows tenantId s a b, ∀ f ∈ activeRows tenantId s a b, e = f := by
    intro e he f hf
    obtain ⟨he, hetenant, _, hesource, hetarget⟩ := (hmem e).mp he
    obtain ⟨hf, hftenant, _, hfsource, hftarget⟩ := (hmem f).mp hf
    apply s.edgeKeys.eq he hf
    rw [Relationship.edgeKey, Relationship.edgeKey, hetenant, hesource, hetarget, hftenant, hfsource, hftarget,
      h.relationshipType e he hetenant, h.relationshipType f hf hftenant, h.sourceSystem e he hetenant,
      h.sourceSystem f hf hftenant]
  refine ⟨?_, ?_⟩
  · intro harrow
    obtain ⟨e, he⟩ := harrow
    have hrow := (hmem e).mpr he
    cases hrows : activeRows tenantId s a b with
    | nil =>
      rw [hrows] at hrow
      cases hrow
    | cons first rest =>
      rw [hrows] at hrow hnodup hone hmem
      cases rest with
      | nil =>
        obtain rfl := List.mem_singleton.mp hrow
        rw [List.map_singleton, h.relationshipType e he.1 he.2.1]
      | cons second rest =>
        have heq := hone first (by simp) second (by simp)
        simp [heq] at hnodup
  · intro hnone
    rw [List.eq_nil_iff_forall_not_mem]
    exact fun e he => hnone ⟨e, (hmem e).mp he⟩

/-- After `rebuild_all`, the arrows out of a supported resource are its references. -/
theorem Projected.arrow_rebuilt {accepted : List ResourceProjectionEvent} (h : Projected py tenantId accepted s)
    {host : Host} {changed : Nat} {rebuilt : Store} (hrebuilt : rebuildAll py host tenantId s = .ok (changed, rebuilt))
    {a : Uuid} (ha : Supported py accepted a) (b : Uuid) : Arrow tenantId rebuilt a b ↔ Refers py accepted a b := by
  obtain ⟨e, he, hsupports⟩ := ha
  obtain ⟨hmem, hea⟩ := mem_of_latest he
  obtain ⟨n, hn, hkey⟩ := List.mem_map.mp (h.covered e hmem)
  have htenant : n.tenantId = tenantId := congrArg Prod.fst hkey
  have hresource : n.inventoryResourceId = a := (congrArg Prod.snd hkey).trans hea
  obtain ⟨e', he', hreflects⟩ := h.node n hn htenant
  obtain rfl : e = e' := Option.some.inj (he.symm.trans (hresource ▸ he'))
  rw [← hreflects.resourceType] at hsupports
  have harrow := ((rebuildAll_spec h.madeBy).of_ok hrebuilt).2 n hn htenant hreflects.isActive hsupports b
  rw [← hresource, harrow, wanted_iff h he' hreflects]

theorem arrow_rebuilt (h : FromEmpty py tenantId s calls) {host : Host} {changed : Nat} {rebuilt : Store}
    (hrebuilt : rebuildAll py host tenantId (project py s calls).store = .ok (changed, rebuilt)) {a : Uuid}
    (ha : Supported py (project py s calls).accepted a) (b : Uuid) :
    Arrow tenantId rebuilt a b ↔ Refers py (project py s calls).accepted a b :=
  (sound_project h).projected.arrow_rebuilt hrebuilt ha b

/-- **The rebuilt graph is the reference graph.** Calls fail only on a value a column does
not take or on an id drawn twice, and so does the rebuild, on an id. After it, an active
`references` row joins a supported resource to each resource its latest properties name,
and no other row leaves it; so two runs that accept the same events of each resource, in
the same order, end with the same edges. -/
theorem rebuilt_reference (py : Python) (tenantId : Uuid) (s : Store) (calls : List Call) (host : Host)
    (h : FromEmpty py tenantId s calls) :
    (∀ f ∈ (project py s calls).failures, f = .refused ∨ f = .primaryKey) ∧
    (∀ f, rebuildAll py host tenantId (project py s calls).store = .error f → f = .primaryKey ∧
      Clash host ((project py s calls).store.edges.map Relationship.id)
        (candidateCount py (listNodes tenantId (project py s calls).store))) ∧
    ∀ changed rebuilt, rebuildAll py host tenantId (project py s calls).store = .ok (changed, rebuilt) →
      (∀ a b, Supported py (project py s calls).accepted a →
        (Refers py (project py s calls).accepted a b →
          (activeRows tenantId rebuilt a b).map Relationship.relationshipType = ["references"]) ∧
        (¬ Refers py (project py s calls).accepted a b → activeRows tenantId rebuilt a b = [])) ∧
      ∀ (s' : Store) (calls' : List Call) (host' : Host) (changed' : Nat) (rebuilt' : Store),
        FromEmpty py tenantId s' calls' →
        (∀ x, (project py s' calls').accepted.filter (fun e => e.inventoryResourceId = x) =
          (project py s calls).accepted.filter fun e => e.inventoryResourceId = x) →
        rebuildAll py host' tenantId (project py s' calls').store = .ok (changed', rebuilt') →
        ∀ a b, Supported py (project py s calls).accepted a →
          (activeRows tenantId rebuilt' a b).map Relationship.relationshipType =
            (activeRows tenantId rebuilt a b).map Relationship.relationshipType := by
  have hsound := sound_project h
  have hspec := @rebuildAll_spec py tenantId host _ hsound.projected.madeBy
  refine ⟨hsound.failures, fun f hf => hspec.of_error hf, fun changed rebuilt hrebuilt => ⟨?_, ?_⟩⟩
  · intro a b ha
    obtain ⟨hrow, hnone⟩ := activeRows_of_arrow (hspec.of_ok hrebuilt).1 (a := a) (b := b)
    rw [← arrow_rebuilt h hrebuilt ha]
    exact ⟨hrow, hnone⟩
  · intro s' calls' host' changed' rebuilt' h' hsame hrebuilt' a b ha
    have hlatest : ∀ x, latest (project py s' calls').accepted x = latest (project py s calls).accepted x := by
      intro x
      unfold latest
      rw [hsame]
    have ha' : Supported py (project py s' calls').accepted a := by
      unfold Supported
      rw [hlatest]
      exact ha
    have hrefers : Refers py (project py s' calls').accepted a b ↔ Refers py (project py s calls).accepted a b := by
      unfold Refers
      rw [hlatest, hlatest]
    have hmade' := ((rebuildAll_spec (sound_project h').projected.madeBy).of_ok hrebuilt').1
    obtain ⟨hrow, hnone⟩ := activeRows_of_arrow (hspec.of_ok hrebuilt).1 (a := a) (b := b)
    obtain ⟨hrow', hnone'⟩ := activeRows_of_arrow hmade' (a := a) (b := b)
    rw [arrow_rebuilt h hrebuilt ha] at hrow hnone
    rw [arrow_rebuilt h' hrebuilt' ha', hrefers] at hrow' hnone'
    by_cases hcase : Refers py (project py s calls).accepted a b
    · rw [hrow' hcase, hrow hcase]
    · rw [hnone' hcase, hnone hcase]

/-- A virtual machine that names another resource. -/
def sampleEvent (inventoryResourceId : Uuid) (name other : String) : ResourceProjectionEvent where
  tenantId := 7
  inventoryResourceId := inventoryResourceId
  azureResourceId := "/subscriptions/1/providers/" ++ name
  name := name
  resourceType := "microsoft.compute/virtualmachines"
  resourceGroup := "main"
  properties := evidence ("/subscriptions/1/providers/" ++ other)

def sampleHost (nodeId : Uuid) (edgeIds : Nat → Uuid) : Host where
  now := 0
  clock := fun _ => 0
  nodeId := nodeId
  edgeIds := edgeIds
  nodeOrder := .stored _
  edgeOrder := .stored _

/-- Resource 1 names resource 2, which is projected after it and names itself. -/
def sampleCalls : List Call :=
  [⟨sampleHost 20 (fun i => .ofNat 128 (30 + i)), sampleEvent 1 "a" "b"⟩,
    ⟨sampleHost 21 (fun i => .ofNat 128 (40 + i)), sampleEvent 2 "b" "b"⟩]

theorem rebuilt_reference_sampleCalls :
    (∃ changed rebuilt, rebuildAll .ascii (sampleHost 0 fun i => .ofNat 128 (50 + i)) 7
        (project .ascii .empty sampleCalls).store = .ok (changed, rebuilt) ∧
      ∀ a b, Supported .ascii (project .ascii .empty sampleCalls).accepted a →
        ¬ Refers .ascii (project .ascii .empty sampleCalls).accepted a b → activeRows 7 rebuilt a b = []) := by
  have h : FromEmpty .ascii 7 .empty sampleCalls := by
    refine ⟨by simp [Store.empty], by simp [Store.empty], by simp [sampleCalls, sampleEvent], ?_⟩
    unfold OneArmId
    decide +kernel
  obtain ⟨_, herror, hok⟩ := rebuilt_reference .ascii 7 .empty sampleCalls
    (sampleHost 0 fun i => .ofNat 128 (50 + i)) h
  cases hrebuilt : rebuildAll .ascii (sampleHost 0 fun i => .ofNat 128 (50 + i)) 7
      (project .ascii .empty sampleCalls).store with
  | error f =>
    have hsome : (rebuildAll .ascii (sampleHost 0 fun i => .ofNat 128 (50 + i)) 7
        (project .ascii .empty sampleCalls).store).isOk = true := by decide +kernel
    rw [hrebuilt] at hsome
    cases hsome
  | ok r =>
    exact ⟨r.1, r.2, rfl, fun a b ha => ((hok r.1 r.2 hrebuilt).1 a b ha).2⟩

end Runs
end Sentinel.Relationships
