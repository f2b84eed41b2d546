import Sentinel.Relationships.Graph
import Sentinel.Relationships.Projection

/-! Graph answers on the stores that projecting and rebuilding reach.

A search may stop inside a layer, so what it has collected hangs together after every edge
(`Rooted`): each end is visited, and the edges collected join what is visited to the root.
Projecting and rebuilding keep the nodes of both ends of an edge (`Referential`), so an
answer shows both. -/
namespace Sentinel.Relationships
open Library Library.Fallible Common

/-! ### The search, at every edge -/

/-- One hop along an edge of `P`. -/
def Via (direction : Direction) (P : Relationship → Prop) (x y : Uuid) : Prop :=
  ∃ e, P e ∧ Joins direction x y e

/-- The edges of `P` have been collected, their ends are visited, and what is visited is
within `k` hops along them. -/
structure Rooted (tenantId : Uuid) (query : GraphQuery) (s : Store) (k : Nat) (visited : Finset Uuid)
    (byId : List (Uuid × Relationship)) (P : Relationship → Prop) : Prop where
  collected : Collected s byId P
  usable : ∀ e, P e → Usable tenantId query s e
  ends : ∀ e, P e → e.sourceResourceId ∈ visited ∧ e.targetResourceId ∈ visited
  root : query.rootResourceId ∈ visited
  paths : ∀ x ∈ visited, Walk.Within (Via query.direction P) query.rootResourceId k x

section Search
variable {order : Query.RowOrder Relationship} {tenantId : Uuid} {query : GraphQuery} {s : Store} {j k : Nat}
  {visited frontier next : Finset Uuid} {byId : List (Uuid × Relationship)} {P : Relationship → Prop}

theorem Rooted.mono (h : Rooted tenantId query s j visited byId P) (hjk : j ≤ k) :
    Rooted tenantId query s k visited byId P :=
  {h with paths := fun x hx => (h.paths x hx).mono hjk}

/-- What is visited is reached. -/
theorem Rooted.reached (h : Rooted tenantId query s k visited byId P) {x : Uuid} (hx : x ∈ visited) :
    Reached tenantId query s k x :=
  (h.paths x hx).imp fun _ _ ⟨e, he, hjoins⟩ => ⟨e, h.usable e he, hjoins⟩

/-- Collecting an edge that leaves something within `j` hops, and visiting its ends. -/
theorem Rooted.add (h : Rooted tenantId query s k visited byId P) {e : Relationship}
    (he : Usable tenantId query s e) (hjk : j < k) {x : Uuid}
    (hx : Walk.Within (Via query.direction P) query.rootResourceId j x) (hleaves : Leaves query.direction x e) :
    Rooted tenantId query s k (insert e.sourceResourceId (insert e.targetResourceId visited))
      (Dict.set byId e.id e) fun r => P r ∨ r = e := by
  have hgrows : ∀ {n y}, Walk.Within (Via query.direction P) query.rootResourceId n y →
      Walk.Within (Via query.direction fun r => P r ∨ r = e) query.rootResourceId n y :=
    fun hy => hy.imp fun _ _ ⟨r, hr, hjoins⟩ => ⟨r, .inl hr, hjoins⟩
  have hend : ∀ y, y = e.sourceResourceId ∨ y = e.targetResourceId →
      Walk.Within (Via query.direction fun r => P r ∨ r = e) query.rootResourceId k y := by
    intro y hy
    cases ends_of_leaves hleaves hy with
    | inl heq =>
      rw [heq]
      exact (hgrows hx).mono hjk.le
    | inr hjoins => exact (Walk.Within.hop (hgrows hx) ⟨e, .inr rfl, hjoins⟩).mono hjk
  constructor
  case collected => exact h.collected.set he.1
  case usable =>
    intro r hr
    cases hr with
    | inl hr => exact h.usable r hr
    | inr hr => exact hr ▸ he
  case ends =>
    intro r hr
    cases hr with
    | inl hr =>
      obtain ⟨hsource, htarget⟩ := h.ends r hr
      simp [hsource, htarget]
    | inr hr =>
      rw [hr]
      simp
  case root => simp [h.root]
  case paths =>
    intro y hy
    rw [Finset.mem_insert, Finset.mem_insert, ← or_assoc] at hy
    cases hy with
    | inl hy => exact hend y hy
    | inr hy => exact hgrows (h.paths y hy)

/-- A scan, stopped early or not, leaves the collected edges rooted. -/
theorem scan_rooted {edges : List Relationship} (hjk : j < k)
    (hedges : ∀ e ∈ edges, query.allows e → Usable tenantId query s e ∧ ∃ x ∈ frontier, Leaves query.direction x e)
    (hfrontier : ∀ x ∈ frontier, Walk.Within (Via query.direction P) query.rootResourceId j x)
    (h : Rooted tenantId query s k (visited ∪ next) byId P) :
    ∃ Q, Rooted tenantId query s k (visited ∪ (scan query visited edges next byId).1)
      (scan query visited edges next byId).2.1 Q := by
  induction edges generalizing next byId P with
  | nil => exact ⟨P, h⟩
  | cons e rest ih =>
    have hrest : ∀ r ∈ rest, query.allows r →
        Usable tenantId query s r ∧ ∃ x ∈ frontier, Leaves query.direction x r :=
      fun r hr => hedges r (List.mem_cons_of_mem e hr)
    rw [scan]
    by_cases hallows : query.allows e
    · rw [if_pos hallows]
      obtain ⟨husable, x, hx, hleaves⟩ := hedges e List.mem_cons_self hallows
      have hadd := h.add husable hjk (hfrontier x hx) hleaves
      rw [← Finset.union_insert, ← Finset.union_insert] at hadd
      by_cases hfull : query.maxNodes ≤
          (visited ∪ insert e.sourceResourceId (insert e.targetResourceId next)).card
      · rw [if_pos hfull]
        exact ⟨_, hadd⟩
      · rw [if_neg hfull]
        apply ih hrest _ hadd
        intro y hy
        apply (hfrontier y hy).imp
        rintro _ _ ⟨r, hr, hjoins⟩
        exact ⟨r, .inl hr, hjoins⟩
    · rw [if_neg hallows]
      exact ih hrest hfrontier h

/-! ### The search, at every layer -/

/-- The search hangs together, and its frontier was visited. -/
structure Connected (tenantId : Uuid) (query : GraphQuery) (s : Store) (k : Nat) (search : Search) : Prop where
  rooted : ∃ P, Rooted tenantId query s k search.visited search.edgesById P
  frontier : search.frontier ⊆ search.visited

theorem connected_start : Connected tenantId query s 0
    ⟨{query.rootResourceId}, {query.rootResourceId}, [], false⟩ where
  rooted := by
    refine ⟨fun _ => False, ⟨.nil, by simp, by simp, by simp, ?_⟩⟩
    intro x hx
    rw [Finset.mem_singleton.mp hx]
    exact .root 0
  frontier := Finset.Subset.refl _

theorem connected_expand {search : Search} (h : Connected tenantId query s k search) :
    Connected tenantId query s (k + 1) (expand order tenantId query s k search) := by
  obtain ⟨P, hrooted⟩ := h.rooted
  have hstart : Rooted tenantId query s (k + 1) (search.visited ∪ ∅) search.edgesById P := by
    rw [Finset.union_empty]
    exact hrooted.mono (Nat.le_succ k)
  have hedges : ∀ e ∈ order.arrange k (edgesForFrontier tenantId search.frontier query.direction s),
      query.allows e → Usable tenantId query s e ∧ ∃ x ∈ search.frontier, Leaves query.direction x e :=
    fun e he hallows => mem_layer.mp ⟨he, hallows⟩
  have hscan := scan_rooted (Nat.lt_succ_self k) hedges (fun x hx => hrooted.paths x (h.frontier hx)) hstart
  refine ⟨?_, ?_⟩
  · show ∃ Q, Rooted tenantId query s (k + 1) (search.visited ∪ (_ \ search.visited)) _ Q
    rw [Finset.union_sdiff_self_eq_union]
    exact hscan
  · exact Finset.subset_union_right

theorem connected_layers {remaining : Nat} {search : Search} (h : Connected tenantId query s k search) :
    Connected tenantId query s (k + remaining) (layers order tenantId query s remaining k search) := by
  induction remaining generalizing k search with
  | zero => exact h
  | succ remaining ih =>
    have hnext : Connected tenantId query s (k + 1) (expand order tenantId query s k search) :=
      connected_expand h
    rw [layers]
    by_cases hstop : (expand order tenantId query s k search).truncated ∨
        (expand order tenantId query s k search).frontier = ∅
    · rw [if_pos hstop]
      obtain ⟨P, hrooted⟩ := hnext.rooted
      exact ⟨⟨P, hrooted.mono (by omega)⟩, hnext.frontier⟩
    · rw [if_neg hstop, ← Nat.add_assoc, Nat.add_right_comm]
      exact ih hnext

theorem connected_graphSearch :
    Connected tenantId query s query.maxDepth (graphSearch order tenantId query s) := by
  rw [← Nat.zero_add query.maxDepth]
  exact connected_layers connected_start

end Search

/-! ### The nodes of an edge -/

/-- There is a node of each end of each edge. -/
def Referential (s : Store) : Prop :=
  ∀ e ∈ s.edges, (e.tenantId, e.sourceResourceId) ∈ s.nodes.map ResourceNode.inventoryKey ∧
    (e.tenantId, e.targetResourceId) ∈ s.nodes.map ResourceNode.inventoryKey

/-- The stores that projecting and rebuilding reach; a call that fails is rolled back. -/
inductive Reachable (py : Python) : Store → Prop
  | empty : Reachable py .empty
  | projected {s s' : Store} {host : Host} {event : ResourceProjectionEvent} {changed : Nat} :
    Reachable py s → projectAndExtract py host event s = .ok (changed, s') → Reachable py s'
  | rebuilt {s s' : Store} {host : Host} {tenantId : Uuid} {changed : Nat} :
    Reachable py s → rebuildAll py host tenantId s = .ok (changed, s') → Reachable py s'

section Referential
variable {py : Python} {host : Host} {tenantId : Uuid} {source : ResourceNode} {s : Store}

theorem Referential.updateEdges (h : Referential s) {f : Relationship → Relationship} (hf : Store.KeepsEdge f) :
    Referential (s.updateEdges f hf) := by
  intro r hr
  obtain ⟨e, he, rfl⟩ := List.mem_map.mp hr
  have hkey := hf.edgeKey e
  simp only [Relationship.edgeKey, Prod.mk.injEq] at hkey
  rw [hkey.1, hkey.2.1, hkey.2.2.1]
  exact h e he

theorem referential_insertEdge (h : Referential s) {e : Relationship}
    (hsource : (e.tenantId, e.sourceResourceId) ∈ s.nodes.map ResourceNode.inventoryKey)
    (htarget : (e.tenantId, e.targetResourceId) ∈ s.nodes.map ResourceNode.inventoryKey) :
    Ends (fun _ => True) (fun t => t.nodes = s.nodes ∧ Referential t) (s.insertEdge e) := by
  apply Ends.any
  intro t ht
  obtain ⟨hnodes, hedges⟩ := Store.insertEdge_eq_ok ht
  refine ⟨hnodes, ?_⟩
  intro r hr
  rw [hnodes]
  rw [hedges] at hr
  cases List.mem_append.mp hr with
  | inl hr => exact h r hr
  | inr hr =>
    rw [List.mem_singleton.mp hr]
    exact ⟨hsource, htarget⟩

/-- A new edge goes from the source to a node that was found. -/
theorem referential_rebuildEdge (h : Referential s)
    (hsource : (tenantId, source.inventoryResourceId) ∈ s.nodes.map ResourceNode.inventoryKey)
    (extractor : Extractor) (current : List Relationship) (c : EdgeCandidate) (drawn : Nat) :
    Ends (fun _ => True) (fun r => r.2.nodes = s.nodes ∧ Referential r.2)
      (rebuildEdge host tenantId source extractor current c drawn s) := by
  rw [rebuildEdge]
  cases hfind : targetNode tenantId s c with
  | none => exact ⟨rfl, h⟩
  | some target =>
    obtain ⟨htarget, harm⟩ := targetNode_eq_some hfind
    have htenant : target.tenantId = tenantId := congrArg Prod.fst harm
    have hkey : (tenantId, target.inventoryResourceId) ∈ s.nodes.map ResourceNode.inventoryKey := by
      rw [← htenant]
      exact List.mem_map_of_mem htarget
    show Ends _ _ (if _ then _ else _)
    split_ifs
    · exact ⟨rfl, h⟩
    · cases current.find? fun e => e.targetResourceId = target.inventoryResourceId ∧
          e.relationshipType = c.relationshipType with
      | none => exact (referential_insertEdge h hsource hkey).map fun _ ht => ht
      | some edge => exact ⟨rfl, h.updateEdges (keepsEdge_reactivate _ _ _)⟩

theorem referential_rebuildLoop (extractor : Extractor) (current : List Relationship)
    (candidates : List EdgeCandidate) (drawn : Nat) (h : Referential s)
    (hsource : (tenantId, source.inventoryResourceId) ∈ s.nodes.map ResourceNode.inventoryKey) :
    Ends (fun _ => True) (fun r => r.2.nodes = s.nodes ∧ Referential r.2)
      (rebuildLoop host tenantId source extractor current candidates drawn s) := by
  induction candidates generalizing drawn s with
  | nil => exact ⟨rfl, h⟩
  | cons c rest ih =>
    rw [rebuildLoop]
    apply (referential_rebuildEdge h hsource extractor current c drawn).bind
    intro r hr
    apply (ih r.1 hr.2 (hr.1 ▸ hsource)).mono fun _ hf => hf
    intro r' hr'
    exact ⟨hr'.1.trans hr.1, hr'.2⟩

theorem referential_rebuildNode (extractors : List Extractor) (changed : Nat) (h : Referential s)
    (hsource : (tenantId, source.inventoryResourceId) ∈ s.nodes.map ResourceNode.inventoryKey) :
    Ends (fun _ => True) (fun r => r.2.nodes = s.nodes ∧ Referential r.2)
      (rebuildNode host tenantId source extractors changed s) := by
  induction extractors generalizing changed s with
  | nil => exact ⟨rfl, h⟩
  | cons extractor rest ih =>
    rw [rebuildNode]
    split_ifs
    · have hedges : Ends (fun _ => True) (fun r : Nat × Store => r.2.nodes = s.nodes ∧ Referential r.2)
          (rebuildEdges host tenantId source extractor (extractor.extract source.properties) changed s) :=
        referential_rebuildLoop extractor _ _ changed (h.updateEdges _) hsource
      apply hedges.bind
      intro r hr
      apply (ih r.1 hr.2 (hr.1 ▸ hsource)).mono fun _ hf => hf
      intro r' hr'
      exact ⟨hr'.1.trans hr.1, hr'.2⟩
    · exact ih changed h hsource

theorem referential_rebuildNodes (nodes : List ResourceNode) (changed : Nat) (h : Referential s)
    (hnodes : ∀ n ∈ nodes, (tenantId, n.inventoryResourceId) ∈ s.nodes.map ResourceNode.inventoryKey) :
    Ends (fun _ => True) (fun r => Referential r.2) (rebuildNodes py host tenantId nodes changed s) := by
  induction nodes generalizing changed s with
  | nil => exact h
  | cons node rest ih =>
    rw [rebuildNodes]
    apply (referential_rebuildNode _ changed h (hnodes node List.mem_cons_self)).bind
    intro r hr
    apply ih r.1 hr.2
    intro n hn
    rw [hr.1]
    exact hnodes n (List.mem_cons_of_mem node hn)

/-- More nodes are enough for the same edges. -/
theorem Referential.of_nodes (h : Referential s) {t : Store} (hedges : t.edges = s.edges)
    (hnodes : ∀ key ∈ s.nodes.map ResourceNode.inventoryKey, key ∈ t.nodes.map ResourceNode.inventoryKey) :
    Referential t := by
  intro e he
  obtain ⟨hsource, htarget⟩ := h e (hedges ▸ he)
  exact ⟨hnodes _ hsource, hnodes _ htarget⟩

/-- The node an event leaves is in the table. -/
theorem referential_upsertNode (h : Referential s) (event : ResourceProjectionEvent) :
    Ends (fun _ => True) (fun r => Referential r.2 ∧
        (event.tenantId, r.1.inventoryResourceId) ∈ r.2.nodes.map ResourceNode.inventoryKey)
      (upsertNode py host event s) := by
  unfold upsertNode
  cases hfind : s.nodes.find? fun n => n.inventoryKey = (event.tenantId, event.inventoryResourceId) with
  | none =>
    show Ends _ _ (if _ then _ else _)
    split_ifs
    · apply (Ends.any fun t ht => Store.insertNode_eq_ok ht).map
      intro t ht
      refine ⟨h.of_nodes ht.2 ?_, ?_⟩
      · intro key hkey
        rw [ht.1, List.map_append]
        exact List.mem_append_left _ hkey
      · rw [ht.1, List.map_append]
        exact List.mem_append_right _ (List.mem_singleton_self _)
    · trivial
  | some node =>
    have hkeys : (s.nodes.map (updateNode py event)).map ResourceNode.inventoryKey =
        s.nodes.map ResourceNode.inventoryKey := Table.map_rewrite (keepsNode_updateNode py event).inventoryKey
    have hkey : node.inventoryKey = (event.tenantId, event.inventoryResourceId) := by
      simpa using List.find?_some hfind
    show Ends _ _ (if _ then _ else _)
    split_ifs
    · refine ⟨h.of_nodes rfl (fun key hmem => hkeys ▸ hmem), ?_⟩
      show (event.tenantId, node.inventoryResourceId) ∈
        (s.nodes.map (updateNode py event)).map ResourceNode.inventoryKey
      have hnode : (event.tenantId, node.inventoryResourceId) = node.inventoryKey :=
        Prod.ext (congrArg Prod.fst hkey).symm rfl
      rw [hkeys, hnode]
      exact List.mem_map_of_mem (List.mem_of_find?_eq_some hfind)
    · trivial

theorem referential_projectAndExtract (h : Referential s) (event : ResourceProjectionEvent) :
    Ends (fun _ => True) (fun r => Referential r.2) (projectAndExtract py host event s) := by
  apply (referential_upsertNode h event).bind
  intro r hr
  exact (referential_rebuildNode _ 0 hr.1 hr.2).mono (fun _ hf => hf) fun _ hr' => hr'.2

theorem referential_rebuildAll (h : Referential s) :
    Ends (fun _ => True) (fun r => Referential r.2) (rebuildAll py host tenantId s) := by
  apply referential_rebuildNodes _ 0 h
  intro n hn
  obtain ⟨hmem, hactive⟩ := List.mem_filter.mp ((host.nodeOrder.perm _ _).mem_iff.mp hn)
  have htenant : n.tenantId = tenantId := (of_decide_eq_true hactive).1
  rw [← htenant]
  exact List.mem_map_of_mem hmem

theorem Reachable.referential (h : Reachable py s) : Referential s := by
  induction h with
  | empty => exact fun e he => nomatch he
  | projected _ hcall ih => exact (referential_projectAndExtract ih _).of_ok hcall
  | rebuilt _ hcall ih => exact (referential_rebuildAll ih).of_ok hcall

theorem reachable_project (h : Reachable py s) (calls : List Call) : Reachable py (project py s calls).store := by
  induction calls using List.reverseRecOn with
  | nil => exact h
  | append_singleton calls c ih =>
    rw [project, List.foldl_append]
    show Reachable py (attempt py (project py s calls) c).store
    unfold attempt
    cases hcall : projectAndExtract py c.host c.event (project py s calls).store with
    | ok r => exact .projected ih hcall
    | error f => exact ih

end Referential

/-! ### Answers -/

/-- The edge of an answer goes from `x` to `y` in the direction of the query. -/
def GraphEdge.Joins (direction : Direction) (x y : Uuid) (g : GraphEdge) : Prop :=
  match direction with
  | .downstream => g.source = x ∧ g.target = y
  | .upstream => g.target = x ∧ g.source = y
  | .both => g.source = x ∧ g.target = y ∨ g.target = x ∧ g.source = y

theorem joins_graphEdge {direction : Direction} {x y : Uuid} {e : Relationship} :
    (graphEdge e).Joins direction x y ↔ Joins direction x y e := by
  cases direction <;> exact Iff.rfl

/-- **Every graph answer is sound and connected**, cut off or not: its edges are active
edges of the tenant that pass the filter, both ends of each are among its nodes, its edges
join each of its nodes to the root in at most `max_depth` hops, and nothing is in it
twice. -/
theorem graph_sound_and_connected (py : Python) (s : Store) (hs : Reachable py s)
    (order : Query.RowOrder Relationship) (tenantId : Uuid) (query : GraphQuery) :
    (∀ g ∈ (graph order tenantId query s).edges, ∃ e, Usable tenantId query s e ∧ g = graphEdge e) ∧
    (∀ g ∈ (graph order tenantId query s).edges,
      g.source ∈ (graph order tenantId query s).nodes.map GraphNode.id ∧
        g.target ∈ (graph order tenantId query s).nodes.map GraphNode.id) ∧
    (∀ x ∈ (graph order tenantId query s).nodes.map GraphNode.id,
      Walk.Within (fun x y => ∃ g ∈ (graph order tenantId query s).edges, g.Joins query.direction x y)
        query.rootResourceId query.maxDepth x) ∧
    ((graph order tenantId query s).nodes.map GraphNode.id).Nodup ∧
    ((graph order tenantId query s).edges.map GraphEdge.id).Nodup := by
  have hconnected : Connected tenantId query s query.maxDepth (graphSearch order tenantId query s) :=
    connected_graphSearch
  obtain ⟨P, hrooted⟩ := hconnected.rooted
  have hedges : (graph order tenantId query s).edges =
      ((graphSearch order tenantId query s).edgesById.map Prod.snd).map graphEdge :=
    edges_graph fun e he => hrooted.ends e (hrooted.collected.values.mp he).2
  have hmem : ∀ g, g ∈ (graph order tenantId query s).edges ↔ ∃ e, P e ∧ graphEdge e = g := by
    intro g
    rw [hedges, List.mem_map]
    apply exists_congr
    intro e
    rw [hrooted.collected.values, and_iff_right_of_imp fun he => (hrooted.usable e he).1]
  refine ⟨?edges, ?ends, ?paths, ?nodup, ?once⟩
  case edges =>
    intro g hg
    obtain ⟨e, he, rfl⟩ := (hmem g).mp hg
    exact ⟨e, hrooted.usable e he, rfl⟩
  case ends =>
    intro g hg
    obtain ⟨e, he, rfl⟩ := (hmem g).mp hg
    obtain ⟨hrow, htenant, _⟩ := hrooted.usable e he
    obtain ⟨hsource, htarget⟩ := hs.referential e hrow
    rw [htenant] at hsource htarget
    refine ⟨mem_ids_graph.mpr ⟨?_, (hrooted.ends e he).1⟩, mem_ids_graph.mpr ⟨?_, (hrooted.ends e he).2⟩⟩
    · simpa [ResourceNode.inventoryKey, graphEdge] using hsource
    · simpa [ResourceNode.inventoryKey, graphEdge] using htarget
  case paths =>
    intro x hx
    apply (hrooted.paths x (mem_ids_graph.mp hx).2).imp
    intro y z hvia
    obtain ⟨e, he, hjoins⟩ := hvia
    exact ⟨graphEdge e, (hmem _).mpr ⟨e, he, rfl⟩, joins_graphEdge.mpr hjoins⟩
  case nodup =>
    show (((getNodes tenantId _ s).map graphNode).map GraphNode.id).Nodup
    rw [List.map_map]
    exact nodup_resources fun n hn => (of_decide_eq_true hn).1
  case once =>
    rw [hedges, List.map_map]
    exact hrooted.collected.nodup_values

/-- Resource 1 names resource 2, and is projected again after it. -/
def sampleAgain : List Call :=
  sampleCalls ++ [⟨sampleHost 22 (fun i => .ofNat 128 (50 + i)), sampleEvent 1 "a" "b"⟩]

/-- The second node is the last one the query may visit. -/
theorem graph_sound_and_connected_sampleAgain :
    (graph (.stored _) 7 {sampleQuery with maxNodes := 2} (project .ascii .empty sampleAgain).store).truncated = true ∧
    (graph (.stored _) 7 {sampleQuery with maxNodes := 2} (project .ascii .empty sampleAgain).store).edges.length = 1 ∧
    ∀ g ∈ (graph (.stored _) 7 {sampleQuery with maxNodes := 2} (project .ascii .empty sampleAgain).store).edges,
      ∃ e, Usable 7 {sampleQuery with maxNodes := 2} (project .ascii .empty sampleAgain).store e ∧ g = graphEdge e :=
  ⟨by decide +kernel, by decide +kernel, (graph_sound_and_connected .ascii _ (reachable_project .empty sampleAgain)
    (.stored _) 7 {sampleQuery with maxNodes := 2}).1⟩

end Sentinel.Relationships
