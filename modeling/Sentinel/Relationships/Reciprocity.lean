import Sentinel.Relationships.Answers

/-! How graph answers fit together.

What depends on a resource and what a resource depends on are two queries, and so are a
near and a far neighbourhood. As long as no answer is cut off, they tell the same story. -/
namespace Sentinel.Relationships
open Library Common

section Whole
variable {order : Query.RowOrder Relationship} {tenantId : Uuid} {query : GraphQuery} {s : Store}

/-- The resource is a node of the tenant. -/
def IsNode (tenantId : Uuid) (s : Store) (x : Uuid) : Prop := ∃ n ∈ s.nodes, n.tenantId = tenantId ∧ n.inventoryResourceId = x

theorem mem_ids_whole (hwhole : (graph order tenantId query s).truncated = false) {x : Uuid} :
    x ∈ (graph order tenantId query s).nodes.map GraphNode.id ↔
      IsNode tenantId s x ∧ Reached tenantId query s query.maxDepth x := by
  rw [← (complete_graphSearch hwhole).visited]
  exact mem_ids_graph

theorem ends_of_joins {direction : Direction} {x y : Uuid} {e : Relationship} (h : Joins direction x y e) :
    e.sourceResourceId = x ∧ e.targetResourceId = y ∨ e.targetResourceId = x ∧ e.sourceResourceId = y := by
  cases direction with
  | downstream => exact .inl h
  | upstream => exact .inr h
  | both => exact h

/-- Both ends of a hop are nodes. -/
theorem isNode_of_hop (hs : Referential s) {x y : Uuid} (h : Hop tenantId query s x y) :
    IsNode tenantId s x ∧ IsNode tenantId s y := by
  obtain ⟨e, ⟨hrow, rfl, -⟩, hjoins⟩ := h
  have hnodes : IsNode e.tenantId s e.sourceResourceId ∧ IsNode e.tenantId s e.targetResourceId := by
    simpa [IsNode, ResourceNode.inventoryKey] using hs e hrow
  rcases ends_of_joins hjoins with ⟨rfl, rfl⟩ | ⟨rfl, rfl⟩
  · exact hnodes
  · exact hnodes.symm

/-- What a walk to a node starts at is a node. -/
theorem isNode_of_reached (hs : Referential s) {n : Nat} {x y : Uuid}
    (h : Walk.Within (Hop tenantId query s) x n y) (hy : IsNode tenantId s y) : IsNode tenantId s x :=
  h.start (fun _ _ hhop => (isNode_of_hop hs hhop).1) hy

end Whole

/-! ### Upstream and downstream -/

section Reciprocal
variable {order order' : Query.RowOrder Relationship} {tenantId : Uuid} {s : Store} {types : List String}
  {depth maxNodes maxNodes' : Nat} {x y : Uuid}

/-- A hop downstream is one upstream, the other way. -/
theorem hop_back {a b : Uuid} : Hop tenantId ⟨x, .downstream, depth, maxNodes, types⟩ s a b ↔
    Hop tenantId ⟨y, .upstream, depth, maxNodes', types⟩ s b a := by
  refine ⟨?_, ?_⟩
  · rintro ⟨e, he, hjoins⟩
    exact ⟨e, he, hjoins.symm⟩
  · rintro ⟨e, he, hjoins⟩
    exact ⟨e, he, hjoins.symm⟩

/-- **Who depends on whom is one question**: a resource is in the whole answer about what
another one depends on if and only if that one is in the whole answer, as deep, about what
depends on the resource. -/
theorem graph_reciprocal (hx : IsNode tenantId s x) (hy : IsNode tenantId s y)
    (hwhole : (graph order tenantId ⟨x, .downstream, depth, maxNodes, types⟩ s).truncated = false)
    (hwhole' : (graph order' tenantId ⟨y, .upstream, depth, maxNodes', types⟩ s).truncated = false) :
    y ∈ (graph order tenantId ⟨x, .downstream, depth, maxNodes, types⟩ s).nodes.map GraphNode.id ↔
      x ∈ (graph order' tenantId ⟨y, .upstream, depth, maxNodes', types⟩ s).nodes.map GraphNode.id := by
  rw [mem_ids_whole hwhole, mem_ids_whole hwhole']
  refine ⟨fun h => ⟨hx, ?_⟩, fun h => ⟨hy, ?_⟩⟩
  · exact h.2.back.imp fun _ _ hhop => hop_back.mp hhop
  · exact h.2.back.imp fun _ _ hhop => hop_back.mpr hhop

theorem graph_reciprocal_sampleStore :
    (graph (.stored _) 7 ⟨1, .downstream, 3, 500, []⟩ sampleStore).nodes.map GraphNode.id = [1, 2] ∧
    (2 ∈ (graph (.stored _) 7 ⟨1, .downstream, 3, 500, []⟩ sampleStore).nodes.map GraphNode.id ↔
      1 ∈ (graph (.stored _) 7 ⟨2, .upstream, 3, 500, []⟩ sampleStore).nodes.map GraphNode.id) :=
  ⟨by decide +kernel, graph_reciprocal ⟨sampleNode 20 1 "a", List.mem_cons_self .., rfl, rfl⟩
    ⟨sampleNode 21 2 "b", List.mem_cons_of_mem _ (List.mem_cons_self ..), rfl, rfl⟩ (by decide +kernel)
    (by decide +kernel)⟩

end Reciprocal

/-! ### Near and far -/

section Composed
variable {order : Query.RowOrder Relationship} {tenantId : Uuid} {s : Store} {direction : Direction}
  {types : List String} {near far maxNodes : Nat} {root : Uuid}

/-- **A far answer is made of near ones**: the resources in the whole answer of depth `near +
far` are those in the answers of depth `far` about the resources in the answer of depth `near`. -/
theorem graph_composes {py : Python} (hs : Reachable py s)
    (hwhole : (graph order tenantId ⟨root, direction, near + far, maxNodes, types⟩ s).truncated = false)
    (hnear : (graph order tenantId ⟨root, direction, near, maxNodes, types⟩ s).truncated = false)
    (hfar : ∀ y ∈ (graph order tenantId ⟨root, direction, near, maxNodes, types⟩ s).nodes.map GraphNode.id,
      (graph order tenantId ⟨y, direction, far, maxNodes, types⟩ s).truncated = false) (x : Uuid) :
    x ∈ (graph order tenantId ⟨root, direction, near + far, maxNodes, types⟩ s).nodes.map GraphNode.id ↔
      ∃ y ∈ (graph order tenantId ⟨root, direction, near, maxNodes, types⟩ s).nodes.map GraphNode.id,
        x ∈ (graph order tenantId ⟨y, direction, far, maxNodes, types⟩ s).nodes.map GraphNode.id := by
  rw [mem_ids_whole hwhole]
  refine ⟨?_, ?_⟩
  · rintro ⟨hx, hreached⟩
    obtain ⟨y, hy, hyx⟩ := Walk.within_add.mp hreached
    have hmem : y ∈ (graph order tenantId ⟨root, direction, near, maxNodes, types⟩ s).nodes.map GraphNode.id :=
      (mem_ids_whole hnear).mpr ⟨isNode_of_reached hs.referential hyx hx, hy⟩
    exact ⟨y, hmem, (mem_ids_whole (hfar y hmem)).mpr ⟨hx, hyx⟩⟩
  · rintro ⟨y, hmem, hxmem⟩
    obtain ⟨hx, hyx⟩ := (mem_ids_whole (hfar y hmem)).mp hxmem
    exact ⟨hx, ((mem_ids_whole hnear).mp hmem).2.trans hyx⟩

/-- What is found after `sampleAgain`. -/
def sampleAnswer (root : Uuid) (depth : Nat) : GraphResponse :=
  graph (.stored _) 7 ⟨root, .downstream, depth, 500, []⟩ (project .ascii .empty sampleAgain).store

theorem graph_composes_sampleAgain :
    (sampleAnswer 1 1).nodes.map GraphNode.id = [1, 2] ∧
    ∀ x, x ∈ (sampleAnswer 1 (1 + 1)).nodes.map GraphNode.id ↔
      ∃ y ∈ (sampleAnswer 1 1).nodes.map GraphNode.id, x ∈ (sampleAnswer y 1).nodes.map GraphNode.id := by
  obtain ⟨hids, hwhole, hnear, hfar⟩ : (sampleAnswer 1 1).nodes.map GraphNode.id = [1, 2] ∧
      (sampleAnswer 1 (1 + 1)).truncated = false ∧ (sampleAnswer 1 1).truncated = false ∧
      (sampleAnswer 2 1).truncated = false := by decide +kernel
  refine ⟨hids, graph_composes (reachable_project .empty sampleAgain) hwhole hnear ?_⟩
  show ∀ y ∈ (sampleAnswer 1 1).nodes.map GraphNode.id, _
  rw [hids]
  exact List.forall_mem_cons.mpr ⟨hnear, List.forall_mem_singleton.mpr hfar⟩

end Composed

end Sentinel.Relationships
