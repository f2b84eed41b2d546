import Sentinel.Library.Fallible
import Sentinel.Relationships.Service

/-! What `rebuild_edges` does to the active edges of a tenant.

Seen as arrows between resources, it replaces those out of its source by one to each node a
candidate names (`rebuildEdges_spec`), and the only constraint that can stop it is the
primary key, when an id is drawn twice. -/
namespace Sentinel.Relationships
open Library Library.Fallible Common

/-- An active edge of the tenant. -/
def Arrow (tenantId : Uuid) (s : Store) (a b : Uuid) : Prop :=
  ∃ e ∈ s.edges, e.tenantId = tenantId ∧ e.isActive ∧ e.sourceResourceId = a ∧ e.targetResourceId = b

/-- Every edge of the tenant was made by the extractor. -/
structure MadeBy (tenantId : Uuid) (extractor : Extractor) (s : Store) : Prop where
  relationshipType : ∀ e ∈ s.edges, e.tenantId = tenantId → e.relationshipType = "references"
  sourceSystem : ∀ e ∈ s.edges, e.tenantId = tenantId → e.sourceSystem = "azure-resource-properties"
  extractorName : ∀ e ∈ s.edges, e.tenantId = tenantId → e.extractorName = extractor.name

theorem MadeBy.of_edges {tenantId : Uuid} {extractor : Extractor} {s s' : Store}
    (h : MadeBy tenantId extractor s) (hedges : s'.edges = s.edges) : MadeBy tenantId extractor s' := by
  constructor <;> rw [hedges]
  · exact h.relationshipType
  · exact h.sourceSystem
  · exact h.extractorName

/-- The candidate names the node of `b`, which is not the source. -/
def Hits (tenantId : Uuid) (nodes : List ResourceNode) (source : ResourceNode) (c : EdgeCandidate)
    (b : Uuid) : Prop :=
  b ≠ source.inventoryResourceId ∧
    ∃ t ∈ nodes, t.armKey = (tenantId, c.targetResourceId) ∧ t.inventoryResourceId = b

/-- Every id is in `taken` or was one of the first drawn. -/
def Drawn (host : Host) (taken : List Uuid) (drawn : Nat) (s : Store) : Prop :=
  ∀ e ∈ s.edges, e.id ∈ taken ∨ ∃ i < drawn, host.edgeIds i = e.id

/-- Among the first `n` draws, an id is taken or drawn for the second time. -/
def Clash (host : Host) (taken : List Uuid) (n : Nat) : Prop :=
  ∃ i < n, host.edgeIds i ∈ taken ∨ ∃ j < i, host.edgeIds j = host.edgeIds i

theorem Clash.mono {host : Host} {taken : List Uuid} {m n : Nat} (h : Clash host taken m) (hmn : m ≤ n) :
    Clash host taken n := by
  obtain ⟨i, hi, hclash⟩ := h
  exact ⟨i, by omega, hclash⟩

theorem targetNode_eq_some {tenantId : Uuid} {s : Store} {c : EdgeCandidate} {t : ResourceNode}
    (h : targetNode tenantId s c = some t) : t ∈ s.nodes ∧ t.armKey = (tenantId, c.targetResourceId) :=
  ⟨List.mem_of_find?_eq_some h, by simpa using List.find?_some h⟩

/-- A candidate names at most one resource. -/
theorem hits_of_targetNode {tenantId : Uuid} {s : Store} {source t : ResourceNode} {c : EdgeCandidate}
    (h : targetNode tenantId s c = some t) (b : Uuid) : Hits tenantId s.nodes source c b ↔
      b ≠ source.inventoryResourceId ∧ b = t.inventoryResourceId := by
  obtain ⟨ht, hkey⟩ := targetNode_eq_some h
  refine and_congr_right fun _ => ?_
  refine ⟨?_, ?_⟩
  · intro hb
    obtain ⟨u, hu, hukey, rfl⟩ := hb
    rw [s.armIds.eq hu ht (hukey.trans hkey.symm)]
  · intro hb
    exact ⟨t, ht, hkey, hb.symm⟩

theorem not_hits_of_targetNode {tenantId : Uuid} {s : Store} {source : ResourceNode} {c : EdgeCandidate}
    (h : targetNode tenantId s c = none) (b : Uuid) : ¬ Hits tenantId s.nodes source c b := by
  intro hb
  obtain ⟨_, t, ht, hkey, _⟩ := hb
  have hnot := List.find?_eq_none.mp h t ht
  simp [hkey] at hnot

/-- The nodes of one resource have one ARM id. -/
theorem target_of_resource {tenantId : Uuid} {s : Store} {t u : ResourceNode} {x y : String} (ht : t ∈ s.nodes)
    (hu : u ∈ s.nodes) (htkey : t.armKey = (tenantId, x)) (hukey : u.armKey = (tenantId, y))
    (hresource : t.inventoryResourceId = u.inventoryResourceId) : x = y := by
  have htenant : t.tenantId = u.tenantId :=
    (congrArg Prod.fst htkey).trans (congrArg Prod.fst hukey).symm
  have htu : t = u := s.inventoryIds.eq ht hu (Prod.ext htenant hresource)
  have hkeys : (tenantId, x) = (tenantId, y) := by
    rw [← htkey, ← hukey, htu]
  exact congrArg Prod.snd hkeys

/-- Two candidates with different targets name different resources. -/
theorem target_of_hits {tenantId : Uuid} {s : Store} {source : ResourceNode} {c d : EdgeCandidate} {b : Uuid}
    (hc : Hits tenantId s.nodes source c b) (hd : Hits tenantId s.nodes source d b) :
    c.targetResourceId = d.targetResourceId := by
  obtain ⟨_, t, ht, htkey, htb⟩ := hc
  obtain ⟨_, u, hu, hukey, hub⟩ := hd
  exact target_of_resource ht hu htkey hukey (htb.trans hub.symm)

/-- What the deployed extractor says of every reference. -/
structure IsExplicit (c : EdgeCandidate) : Prop where
  relationshipType : c.relationshipType = "references"
  dependencyStrength : c.dependencyStrength = "hard"
  confidence : c.confidence = 1

/-- Its edges pass the checks. -/
theorem IsExplicit.checks {c : EdgeCandidate} (h : IsExplicit c) (id tenantId source target : Uuid) (now : Instant)
    (extractor : Extractor) : (newEdge id tenantId source target now extractor c).ConfidenceRange ∧
      (newEdge id tenantId source target now extractor c).Strength := by
  refine ⟨?_, ?_⟩
  · show 0 ≤ numeric43 c.confidence ∧ numeric43 c.confidence ≤ 1
    rw [h.confidence]
    decide +kernel
  · show c.dependencyStrength ∈ ["hard", "soft", "association"]
    rw [h.dependencyStrength]
    decide

section Loop
variable (host : Host) (tenantId : Uuid) (source : ResourceNode) (extractor : Extractor)
  (taken : List Uuid)

/-- The store inside the loop over the candidates: `hits` are the resources named so far,
and `current` the rows of the source from before. -/
structure Rebuilding (before : Store) (current : List Relationship) (hits : Uuid → Prop) (drawn : Nat)
    (s : Store) : Prop where
  nodes : s.nodes = before.nodes
  madeBy : MadeBy tenantId extractor s
  ids : Drawn host taken drawn s
  others : ∀ e, ¬ (e.tenantId = tenantId ∧ e.sourceResourceId = source.inventoryResourceId) →
    (e ∈ s.edges ↔ e ∈ before.edges)
  arrows : ∀ b, Arrow tenantId s source.inventoryResourceId b ↔ hits b
  known : ∀ e ∈ s.edges, e.tenantId = tenantId → e.sourceResourceId = source.inventoryResourceId →
    (∃ r ∈ current, r.targetResourceId = e.targetResourceId) ∨ hits e.targetResourceId
  kept : ∀ r ∈ current, r.relationshipType = "references" ∧ ∃ e ∈ s.edges, e.id = r.id ∧
    e.tenantId = tenantId ∧ e.sourceResourceId = source.inventoryResourceId ∧
    e.targetResourceId = r.targetResourceId

variable {host tenantId source extractor taken}

theorem mem_ofExtractor {s : Store} (hmade : MadeBy tenantId extractor s) {a : Uuid} {e : Relationship}
    (he : e ∈ s.edges) : ofExtractor tenantId a extractor e ↔
      e.tenantId = tenantId ∧ e.sourceResourceId = a := by
  rw [ofExtractor, decide_eq_true_iff]
  refine ⟨?_, ?_⟩
  · intro h
    exact ⟨h.1, h.2.1⟩
  · intro h
    exact ⟨h.1, h.2, hmade.extractorName e he h.1⟩

/-- Before the first candidate, no edge of the source is active. -/
theorem rebuilding_start {s : Store} {drawn : Nat} {current : List Relationship}
    (hmade : MadeBy tenantId extractor s) (hids : Drawn host taken drawn s)
    (hcurrent : ∀ r, r ∈ current ↔
      r ∈ s.edges ∧ r.tenantId = tenantId ∧ r.sourceResourceId = source.inventoryResourceId) :
    Rebuilding host tenantId source extractor taken s current (fun _ => False) drawn
      (s.updateEdges (deactivate tenantId source.inventoryResourceId extractor)
        (keepsEdge_deactivate tenantId source.inventoryResourceId extractor)) where
  nodes := rfl
  madeBy := by
    constructor <;> simp only [Store.updateEdges, List.forall_mem_map, deactivate_eq]
    · exact hmade.relationshipType
    · exact hmade.sourceSystem
    · exact hmade.extractorName
  ids := by
    simp only [Drawn, Store.updateEdges, List.forall_mem_map, deactivate_eq]
    exact hids
  others := fun e he => by
    refine Table.mem_rewrite (p := fun e : Relationship => e.tenantId = tenantId ∧
      e.sourceResourceId = source.inventoryResourceId) (fun r _ hr => ?_) (fun r hr hout => ?_) he
    · rw [deactivate_eq]
      exact hr
    · exact if_neg (mt (mem_ofExtractor hmade hr).mp hout)
  arrows := fun b => by
    refine iff_of_false (fun h => ?_) id
    obtain ⟨e, he, htenant, hactive, hsource, _⟩ := h
    obtain ⟨r, hr, rfl⟩ := List.mem_map.mp he
    rw [deactivate_eq] at htenant hsource hactive
    have hof := (mem_ofExtractor hmade hr).mpr ⟨htenant, hsource⟩
    simp [hof] at hactive
  known := by
    simp only [Store.updateEdges, List.forall_mem_map, deactivate_eq]
    intro r hr htenant hsource
    exact .inl ⟨r, (hcurrent r).mpr ⟨hr, htenant, hsource⟩, rfl⟩
  kept := fun r hr => by
    obtain ⟨hrow, htenant, hsource⟩ := (hcurrent r).mp hr
    refine ⟨hmade.relationshipType r hrow htenant, _, List.mem_map_of_mem hrow, ?_⟩
    rw [deactivate_eq]
    exact ⟨rfl, htenant, hsource, rfl⟩

section Step
variable {before s : Store} {current : List Relationship} {hits : Uuid → Prop} {drawn : Nat}

theorem Rebuilding.congr (h : Rebuilding host tenantId source extractor taken before current hits drawn s)
    {hits' : Uuid → Prop} (heq : ∀ b, hits b ↔ hits' b) :
    Rebuilding host tenantId source extractor taken before current hits' drawn s := by
  rw [show hits' = hits from funext fun b => propext (heq b).symm]
  exact h

/-- Making an old edge of the source active again. -/
theorem Rebuilding.reactivate
    (h : Rebuilding host tenantId source extractor taken before current hits drawn s)
    {edge : Relationship} (hedge : edge ∈ current) (now : Instant) (path : String) :
    Rebuilding host tenantId source extractor taken before current
      (fun b => hits b ∨ b = edge.targetResourceId) drawn
      (s.updateEdges (Relationships.reactivate edge.id now path) (keepsEdge_reactivate edge.id now path)) := by
  obtain ⟨_, row, hrow, hid, htenant, hsource, htarget⟩ := h.kept edge hedge
  refine ⟨h.nodes, ?madeBy, ?ids, ?others, ?arrows, ?known, ?kept⟩
  case madeBy =>
    constructor <;> simp only [Store.updateEdges, List.forall_mem_map, reactivate_eq]
    · exact h.madeBy.relationshipType
    · exact h.madeBy.sourceSystem
    · exact h.madeBy.extractorName
  case ids =>
    simp only [Drawn, Store.updateEdges, List.forall_mem_map, reactivate_eq]
    exact h.ids
  case others =>
    intro e he
    refine Iff.trans (Table.mem_rewrite (p := fun e : Relationship => e.tenantId = tenantId ∧
      e.sourceResourceId = source.inventoryResourceId) (fun r _ hr => ?_) (fun r hr hout => ?_) he)
      (h.others e he)
    · rw [reactivate_eq]
      exact hr
    · refine if_neg fun hre => hout ?_
      rw [s.edgeIds.eq hr hrow (hre.trans hid.symm)]
      exact ⟨htenant, hsource⟩
  case arrows =>
    intro b
    rw [← h.arrows]
    refine ⟨?_, ?_⟩
    · intro hb
      obtain ⟨e, he, hb⟩ := hb
      obtain ⟨r, hr, rfl⟩ := List.mem_map.mp he
      rw [reactivate_eq] at hb
      obtain ⟨hrtenant, hractive, hrsource, rfl⟩ := hb
      by_cases hre : r.id = edge.id
      · exact .inr (by rw [s.edgeIds.eq hr hrow (hre.trans hid.symm), htarget])
      · exact .inl ⟨r, hr, hrtenant, by simpa [hre] using hractive, hrsource, rfl⟩
    · intro hb
      cases hb with
      | inl hb =>
        obtain ⟨r, hr, hrtenant, hractive, hrsource, rfl⟩ := hb
        refine ⟨_, List.mem_map_of_mem hr, ?_⟩
        rw [reactivate_eq]
        exact ⟨hrtenant, by simp [hractive], hrsource, rfl⟩
      | inr hb =>
        refine ⟨_, List.mem_map_of_mem hrow, ?_⟩
        rw [reactivate_eq]
        exact ⟨htenant, by simp [hid], hsource, htarget.trans hb.symm⟩
  case known =>
    simp only [Store.updateEdges, List.forall_mem_map, reactivate_eq]
    intro r hr hrtenant hrsource
    exact (h.known r hr hrtenant hrsource).imp_right .inl
  case kept =>
    intro r hr
    obtain ⟨htype, e, he, hfields⟩ := h.kept r hr
    refine ⟨htype, _, List.mem_map_of_mem he, ?_⟩
    rw [reactivate_eq]
    exact hfields

/-- A new edge of the source, to a resource not named before and with no old edge. -/
theorem Rebuilding.insert
    (h : Rebuilding host tenantId source extractor taken before current hits drawn s)
    {b : Uuid} {c : EdgeCandidate} (hc : IsExplicit c)
    (hsource : b ≠ source.inventoryResourceId) (hhits : ¬ hits b)
    (hcurrent : ∀ r ∈ current, r.targetResourceId ≠ b) :
    Ends (fun f => f = .primaryKey ∧ Clash host taken (drawn + 1))
      (Rebuilding host tenantId source extractor taken before current (fun x => hits x ∨ x = b) (drawn + 1))
      (s.insertEdge (newEdge (host.edgeIds drawn) tenantId source.inventoryResourceId b host.now extractor c)) := by
  unfold Store.insertEdge
  split_ifs with hid hkey hloop hconfidence hstrength
  case pos =>
    obtain ⟨e, he, heid⟩ := List.mem_map.mp hid
    change e.id = host.edgeIds drawn at heid
    refine ⟨rfl, drawn, Nat.lt_succ_self drawn, ?_⟩
    cases h.ids e he with
    | inl htaken => exact .inl (heid ▸ htaken)
    | inr hdrawn =>
      obtain ⟨i, hi, heq⟩ := hdrawn
      exact .inr ⟨i, hi, heq.trans heid⟩
  case pos =>
    -- A row with the same key would be an old edge, or one made for a resource named before.
    obtain ⟨e, he, hekey⟩ := List.mem_map.mp hkey
    simp only [Relationship.edgeKey, newEdge, Prod.mk.injEq] at hekey
    obtain ⟨htenant, hesource, hetarget, _⟩ := hekey
    cases h.known e he htenant hesource with
    | inl hold =>
      obtain ⟨r, hr, hrtarget⟩ := hold
      exact absurd (hrtarget.trans hetarget) (hcurrent r hr)
    | inr hhit => exact absurd (hetarget ▸ hhit) hhits
  case pos => exact absurd hloop.symm hsource
  case pos =>
    refine ⟨h.nodes, ?madeBy, ?ids, ?others, ?arrows, ?known, ?kept⟩
    case madeBy =>
      constructor <;> simp only [List.forall_mem_append, List.forall_mem_singleton]
      · exact ⟨h.madeBy.relationshipType, fun _ => hc.relationshipType⟩
      · exact ⟨h.madeBy.sourceSystem, fun _ => rfl⟩
      · exact ⟨h.madeBy.extractorName, fun _ => rfl⟩
    case ids =>
      simp only [Drawn, List.forall_mem_append, List.forall_mem_singleton]
      refine ⟨fun e he => (h.ids e he).imp_right fun hdrawn => ?_,
        .inr ⟨drawn, Nat.lt_succ_self drawn, rfl⟩⟩
      obtain ⟨i, hi, heq⟩ := hdrawn
      exact ⟨i, by omega, heq⟩
    case others =>
      intro e he
      rw [← h.others e he, List.mem_append, List.mem_singleton, or_iff_left]
      intro heq
      rw [heq] at he
      exact he ⟨rfl, rfl⟩
    case arrows =>
      intro x
      rw [← h.arrows]
      simp only [Arrow, List.mem_append, List.mem_singleton, or_and_right, exists_or, exists_eq_left]
      apply or_congr_right
      simp [newEdge, eq_comm]
    case known =>
      simp only [List.forall_mem_append, List.forall_mem_singleton]
      refine ⟨fun e he htenant hesource => (h.known e he htenant hesource).imp_right .inl, ?_⟩
      intro _ _
      exact .inr (.inr rfl)
    case kept =>
      intro r hr
      obtain ⟨hrtype, e, he, hfields⟩ := h.kept r hr
      exact ⟨hrtype, e, List.mem_append_left _ he, hfields⟩
  case neg => exact absurd (hc.checks _ _ _ _ _ _).2 hstrength
  case neg => exact absurd (hc.checks _ _ _ _ _ _).1 hconfidence

theorem rebuildEdge_spec
    (h : Rebuilding host tenantId source extractor taken before current hits drawn s) {c : EdgeCandidate}
    (hc : IsExplicit c) (hnew : ∀ b, Hits tenantId before.nodes source c b → ¬ hits b) :
    Ends (fun f => f = .primaryKey ∧ Clash host taken (drawn + 1))
      (fun r => r.1 ≤ drawn + 1 ∧ Rebuilding host tenantId source extractor taken before current
        (fun b => hits b ∨ Hits tenantId before.nodes source c b) r.1 r.2)
      (rebuildEdge host tenantId source extractor current c drawn s) := by
  have hnodes : targetNode tenantId s c = targetNode tenantId before c := by
    unfold targetNode
    rw [h.nodes]
  rw [rebuildEdge, hnodes]
  cases htarget : targetNode tenantId before c with
  | none =>
    exact ⟨Nat.le_succ drawn, h.congr fun b =>
      (or_iff_left (not_hits_of_targetNode htarget b)).symm⟩
  | some t =>
    have hhits : ∀ b, Hits tenantId before.nodes source c b ↔
        b ≠ source.inventoryResourceId ∧ b = t.inventoryResourceId := hits_of_targetNode htarget
    show Ends _ _ (if _ then _ else _)
    split_ifs with hself
    · refine ⟨Nat.le_succ drawn, h.congr fun b => (or_iff_left fun hb => ?_).symm⟩
      obtain ⟨hne, heq⟩ := (hhits b).mp hb
      exact hne (heq.trans hself)
    · have hnamed : ∀ b, Hits tenantId before.nodes source c b ↔ b = t.inventoryResourceId := by
        intro b
        rw [hhits]
        exact and_iff_right_of_imp fun heq => heq ▸ hself
      simp only [hnamed]
      cases hfind : current.find? fun e => e.targetResourceId = t.inventoryResourceId ∧
          e.relationshipType = c.relationshipType with
      | none =>
        refine Ends.map (h.insert hc hself (hnew _ ((hnamed _).mpr rfl)) ?_) fun s' hs' => ⟨le_refl _, hs'⟩
        intro r hr heq
        have hnot := List.find?_eq_none.mp hfind r hr
        simp [heq, (h.kept r hr).1, hc.relationshipType] at hnot
      | some edge =>
        have hedge := List.find?_some hfind
        simp only [decide_eq_true_eq] at hedge
        rw [← hedge.1]
        exact ⟨Nat.le_succ drawn, h.reactivate (List.mem_of_find?_eq_some hfind) _ _⟩

theorem rebuildLoop_spec {candidates : List EdgeCandidate}
    (h : Rebuilding host tenantId source extractor taken before current hits drawn s)
    (hexplicit : ∀ c ∈ candidates, IsExplicit c)
    (hnodup : (candidates.map EdgeCandidate.targetResourceId).Nodup)
    (hnew : ∀ c ∈ candidates, ∀ b, Hits tenantId before.nodes source c b → ¬ hits b) :
    Ends (fun f => f = .primaryKey ∧ Clash host taken (drawn + candidates.length))
      (fun r => r.1 ≤ drawn + candidates.length ∧
        Rebuilding host tenantId source extractor taken before current
          (fun b => hits b ∨ ∃ c ∈ candidates, Hits tenantId before.nodes source c b) r.1 r.2)
      (rebuildLoop host tenantId source extractor current candidates drawn s) := by
  induction candidates generalizing hits drawn s with
  | nil => exact ⟨le_refl _, h.congr fun b => by simp⟩
  | cons c rest ih =>
    rw [List.map_cons, List.nodup_cons] at hnodup
    obtain ⟨hfirst, hrest⟩ := List.forall_mem_cons.mp hnew
    obtain ⟨hc, hexplicit⟩ := List.forall_mem_cons.mp hexplicit
    have hstep := rebuildEdge_spec h hc hfirst
    refine Ends.bind (hstep.mono (fun f hf => ⟨hf.1, hf.2.mono (by simp)⟩) fun _ hr => hr) fun r hr => ?_
    have hrec := ih hr.2 hexplicit hnodup.2 fun d hd b hb hor => hor.elim (hrest d hd b hb) fun hcb =>
      hnodup.1 (target_of_hits hcb hb ▸ List.mem_map_of_mem hd)
    refine hrec.mono (fun f hf => ⟨hf.1, hf.2.mono ?_⟩) fun r' hr' => ⟨?_, hr'.2.congr fun b => ?_⟩
    · have := hr.1
      simp only [List.length_cons]
      omega
    · have := hr.1
      have := hr'.1
      simp only [List.length_cons]
      omega
    · simp [or_assoc]

end Step

/-! ### Whole calls -/

variable (host tenantId extractor taken) in
/-- The store between calls, with the active edges of the tenant as arrows. -/
structure Shows (nodes : List ResourceNode) (arrow : Uuid → Uuid → Prop) (drawn : Nat) (s : Store) :
    Prop where
  nodes : s.nodes = nodes
  madeBy : MadeBy tenantId extractor s
  ids : Drawn host taken drawn s
  arrows : ∀ a b, Arrow tenantId s a b ↔ arrow a b

theorem Shows.congr {nodes : List ResourceNode} {arrow arrow' : Uuid → Uuid → Prop} {drawn : Nat} {s : Store}
    (h : Shows host tenantId extractor taken nodes arrow drawn s) (heq : ∀ a b, arrow a b ↔ arrow' a b) :
    Shows host tenantId extractor taken nodes arrow' drawn s :=
  ⟨h.nodes, h.madeBy, h.ids, fun a b => (h.arrows a b).trans (heq a b)⟩

/-- **What `rebuild_edges` does**: the arrows out of its source are replaced by one to each
node a candidate names. -/
theorem rebuildEdges_spec {nodes : List ResourceNode} {arrow : Uuid → Uuid → Prop} {drawn : Nat} {s : Store}
    {candidates : List EdgeCandidate} (h : Shows host tenantId extractor taken nodes arrow drawn s)
    (hexplicit : ∀ c ∈ candidates, IsExplicit c)
    (hnodup : (candidates.map EdgeCandidate.targetResourceId).Nodup) :
    Ends (fun f => f = .primaryKey ∧ Clash host taken (drawn + candidates.length))
      (fun r => r.1 ≤ drawn + candidates.length ∧ Shows host tenantId extractor taken nodes
        (fun a b => if a = source.inventoryResourceId then ∃ c ∈ candidates, Hits tenantId nodes source c b
          else arrow a b) r.1 r.2)
      (rebuildEdges host tenantId source extractor candidates drawn s) := by
  obtain rfl := h.nodes
  have hcurrent : ∀ r, r ∈ host.edgeOrder.arrange 0
      (s.edges.filter (ofExtractor tenantId source.inventoryResourceId extractor)) ↔
      r ∈ s.edges ∧ r.tenantId = tenantId ∧ r.sourceResourceId = source.inventoryResourceId := by
    intro r
    rw [(host.edgeOrder.perm _ _).mem_iff, List.mem_filter]
    exact and_congr_right fun hr => mem_ofExtractor h.madeBy hr
  refine (rebuildLoop_spec (rebuilding_start h.madeBy h.ids hcurrent) hexplicit hnodup
    fun _ _ _ _ => id).mono (fun _ hf => hf) fun r hr => ⟨hr.1, hr.2.nodes, hr.2.madeBy, hr.2.ids, ?_⟩
  intro a b
  split_ifs with ha
  · rw [ha, hr.2.arrows, false_or]
  · rw [← h.arrows]
    -- The rows of another source are the same rows.
    refine exists_congr fun e => ?_
    by_cases hsource : e.sourceResourceId = a
    · rw [hr.2.others e fun hout => ha (hsource.symm.trans hout.2)]
    · simp [hsource]

end Loop

section Service
variable (py : Python) (tenantId : Uuid) (nodes : List ResourceNode)

/-- The properties of the node refer to `b`. -/
def Wanted (node : ResourceNode) (b : Uuid) : Prop :=
  ∃ c ∈ ArmReferenceExtractor.extract py node.properties, Hits tenantId nodes node c b

/-- What `rebuild_edges` for one node does to the arrows. -/
def redraw (arrow : Uuid → Uuid → Prop) (node : ResourceNode) (a b : Uuid) : Prop :=
  if ArmReferenceExtractor.supports node.resourceType ∧ a = node.inventoryResourceId then
    Wanted py tenantId nodes node b
  else arrow a b

/-- How many candidates the nodes have. -/
def candidateCount (todo : List ResourceNode) : Nat :=
  (todo.map fun n => (ArmReferenceExtractor.extract py n.properties).length).sum

variable {py tenantId nodes} {host : Host} {taken : List Uuid}

theorem rebuildNode_spec {arrow : Uuid → Uuid → Prop} {drawn : Nat} {s : Store} {node : ResourceNode}
    (h : Shows host tenantId (armReferenceExtractor py) taken nodes arrow drawn s) :
    Ends (fun f => f = .primaryKey ∧
        Clash host taken (drawn + (ArmReferenceExtractor.extract py node.properties).length))
      (fun r => r.1 ≤ drawn + (ArmReferenceExtractor.extract py node.properties).length ∧
        Shows host tenantId (armReferenceExtractor py) taken nodes (redraw py tenantId nodes arrow node) r.1 r.2)
      (rebuildNode host tenantId node (defaultExtractors py) drawn s) := by
  rw [defaultExtractors, rebuildNode]
  show Ends _ _ (if ArmReferenceExtractor.supports node.resourceType then _ else _)
  by_cases hsupports : ArmReferenceExtractor.supports node.resourceType
  · rw [if_pos hsupports]
    refine (rebuildEdges_spec h ?_ (ArmReferenceExtractor.nodup_extract node.properties)).bind fun r hr =>
      ⟨hr.1, hr.2.congr fun a b => ?_⟩
    · intro c hc
      obtain ⟨path, heq⟩ := ArmReferenceExtractor.candidate_of_mem_extract hc
      rw [heq]
      exact ⟨rfl, rfl, rfl⟩
    · simp only [redraw, hsupports, true_and]
      rfl
  · rw [if_neg hsupports]
    exact ⟨Nat.le_add_right drawn _, h.congr fun a b => by simp [redraw, hsupports]⟩

theorem rebuildNodes_spec {arrow : Uuid → Uuid → Prop} {drawn : Nat} {s : Store} {todo : List ResourceNode}
    (h : Shows host tenantId (armReferenceExtractor py) taken nodes arrow drawn s) :
    Ends (fun f => f = .primaryKey ∧ Clash host taken (drawn + candidateCount py todo))
      (fun r => Shows host tenantId (armReferenceExtractor py) taken nodes
        (todo.foldl (redraw py tenantId nodes) arrow) r.1 r.2)
      (rebuildNodes py host tenantId todo drawn s) := by
  induction todo generalizing arrow drawn s with
  | nil => exact h
  | cons node rest ih =>
    have hcount : candidateCount py (node :: rest) =
        (ArmReferenceExtractor.extract py node.properties).length + candidateCount py rest := by
      simp [candidateCount]
    rw [hcount]
    refine ((rebuildNode_spec h).mono (fun f hf => ⟨hf.1, hf.2.mono (by omega)⟩) fun _ hr => hr).bind
      fun r hr => (ih hr.2).mono (fun f hf => ⟨hf.1, hf.2.mono ?_⟩) fun _ hr' => hr'
    have := hr.1
    omega

theorem redraw_of_not_mem {arrow : Uuid → Uuid → Prop} {todo : List ResourceNode} {a : Uuid}
    (ha : ∀ node ∈ todo, node.inventoryResourceId ≠ a) (b : Uuid) :
    todo.foldl (redraw py tenantId nodes) arrow a b ↔ arrow a b := by
  induction todo generalizing arrow with
  | nil => rfl
  | cons node rest ih =>
    obtain ⟨hnode, hrest⟩ := List.forall_mem_cons.mp ha
    rw [List.foldl_cons, ih hrest, redraw, if_neg fun h => hnode h.2.symm]

/-- With one node for each resource, the last word on a resource is its node's. -/
theorem redraw_of_mem {arrow : Uuid → Uuid → Prop} {todo : List ResourceNode}
    (hnodup : (todo.map ResourceNode.inventoryResourceId).Nodup) {node : ResourceNode} (hmem : node ∈ todo)
    (hsupports : ArmReferenceExtractor.supports node.resourceType) (b : Uuid) :
    todo.foldl (redraw py tenantId nodes) arrow node.inventoryResourceId b ↔
      Wanted py tenantId nodes node b := by
  induction todo generalizing arrow with
  | nil => cases hmem
  | cons first rest ih =>
    rw [List.map_cons, List.nodup_cons] at hnodup
    rw [List.foldl_cons]
    cases hmem with
    | head =>
      have hrest : ∀ n ∈ rest, n.inventoryResourceId ≠ node.inventoryResourceId :=
        fun n hn heq => hnodup.1 (heq ▸ List.mem_map_of_mem hn)
      rw [redraw_of_not_mem hrest, redraw, if_pos ⟨hsupports, rfl⟩]
    | tail _ hmem => exact ih hnodup.2 hmem

/-- **What `rebuild_all` does**: each active node of a supported type gets an arrow to each
node its properties refer to, and no other. -/
theorem rebuildAll_spec {s : Store} (hmade : MadeBy tenantId (armReferenceExtractor py) s) :
    Ends (fun f => f = .primaryKey ∧
        Clash host (s.edges.map Relationship.id) (candidateCount py (listNodes tenantId s)))
      (fun r => MadeBy tenantId (armReferenceExtractor py) r.2 ∧ ∀ node ∈ s.nodes, node.tenantId = tenantId →
        node.isActive → ArmReferenceExtractor.supports node.resourceType → ∀ b,
          (Arrow tenantId r.2 node.inventoryResourceId b ↔ Wanted py tenantId s.nodes node b))
      (rebuildAll py host tenantId s) := by
  have hperm := host.nodeOrder.perm 0 (listNodes tenantId s)
  have hstart : Shows host tenantId (armReferenceExtractor py) (s.edges.map Relationship.id) s.nodes
      (Arrow tenantId s) 0 s :=
    ⟨rfl, hmade, fun e he => .inl (List.mem_map_of_mem he), fun _ _ => Iff.rfl⟩
  have hnodup : ((listNodes tenantId s).map ResourceNode.inventoryResourceId).Nodup :=
    nodup_resources fun n hn => (of_decide_eq_true hn).1
  have hcount : candidateCount py (host.nodeOrder.arrange 0 (listNodes tenantId s)) =
      candidateCount py (listNodes tenantId s) := (hperm.map _).sum_eq
  refine (rebuildNodes_spec hstart).mono (fun f hf => ?_) fun r hr => ⟨hr.madeBy, ?_⟩
  · rw [hcount, Nat.zero_add] at hf
    exact hf
  · intro node hnode htenant hactive hsupports b
    rw [hr.arrows]
    refine redraw_of_mem ((hperm.map _).nodup_iff.mpr hnodup) (hperm.mem_iff.mpr ?_) hsupports b
    exact List.mem_filter.mpr ⟨hnode, by simp [htenant, hactive]⟩

end Service
end Sentinel.Relationships
