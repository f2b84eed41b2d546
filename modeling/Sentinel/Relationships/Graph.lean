import Sentinel.Library.Walk
import Sentinel.Relationships.Repository

/-! `RelationshipService.graph`: a search from the root, one query for each layer.

An answer that is not truncated is the neighbourhood of the root (`graph_exact`): the
nodes within `max_depth` hops along edges that pass the filter, and the edges that leave a
node nearer than that. -/
namespace Sentinel.Relationships
open Library

structure GraphQuery where
  rootResourceId : Uuid
  direction : Direction
  maxDepth : Nat
  maxNodes : Nat
  relationshipTypes : List String

structure GraphNode where
  id : Uuid
  label : String
  resourceType : String
  resourceGroup : String
  azureResourceId : String

structure GraphEdge where
  id : Uuid
  source : Uuid
  target : Uuid
  relationshipType : String
  confidence : ℚ

structure GraphResponse where
  rootResourceId : Uuid
  truncated : Bool
  nodes : List GraphNode
  edges : List GraphEdge

def graphNode (n : ResourceNode) : GraphNode where
  id := n.inventoryResourceId
  label := n.name
  resourceType := n.resourceType
  resourceGroup := n.resourceGroup
  azureResourceId := n.azureResourceId

def graphEdge (e : Relationship) : GraphEdge where
  id := e.id
  source := e.sourceResourceId
  target := e.targetResourceId
  relationshipType := e.relationshipType
  confidence := e.confidence

/-- An empty list of types asks for every type. -/
def GraphQuery.allows (query : GraphQuery) (e : Relationship) : Bool :=
  query.relationshipTypes.isEmpty || query.relationshipTypes.contains e.relationshipType

/-- The variables of the loop over the layers. -/
structure Search where
  frontier : Finset Uuid
  visited : Finset Uuid
  edgesById : List (Uuid × Relationship)
  truncated : Bool

/-- The loop over the edges of one layer, with `next_frontier` and the edges by id. -/
def scan (query : GraphQuery) (visited : Finset Uuid) : List Relationship → Finset Uuid →
    List (Uuid × Relationship) → Finset Uuid × List (Uuid × Relationship) × Bool
  | [], next, byId => (next, byId, false)
  | e :: rest, next, byId =>
    if query.allows e then
      let byId := Dict.set byId e.id e
      let next := insert e.sourceResourceId (insert e.targetResourceId next)
      if query.maxNodes ≤ (visited ∪ next).card then (next, byId, true)
      else scan query visited rest next byId
    else scan query visited rest next byId

section Graph
variable (order : Query.RowOrder Relationship) (tenantId : Uuid) (query : GraphQuery) (s : Store)

/-- One layer. -/
def expand (depth : Nat) (search : Search) : Search :=
  let edges := order.arrange depth (edgesForFrontier tenantId search.frontier query.direction s)
  let (next, byId, truncated) := scan query search.visited edges ∅ search.edgesById
  ⟨next \ search.visited, search.visited ∪ (next \ search.visited), byId, truncated⟩

/-- The loop over the layers: `remaining` of them from `depth` on. -/
def layers : Nat → Nat → Search → Search
  | 0, _, search => search
  | remaining + 1, depth, search =>
    let search := expand order tenantId query s depth search
    if search.truncated ∨ search.frontier = ∅ then search else layers remaining (depth + 1) search

def graphSearch : Search :=
  layers order tenantId query s query.maxDepth 0
    ⟨{query.rootResourceId}, {query.rootResourceId}, [], false⟩

def graph : GraphResponse :=
  let search := graphSearch order tenantId query s
  { rootResourceId := query.rootResourceId
    truncated := search.truncated
    nodes := (getNodes tenantId search.visited s).map graphNode
    edges := ((search.edgesById.map Prod.snd).filter fun e =>
      e.sourceResourceId ∈ search.visited ∧ e.targetResourceId ∈ search.visited).map graphEdge }

end Graph

/-! ### What the answer should be -/

/-- The active edges of the tenant that pass the filter. -/
def Usable (tenantId : Uuid) (query : GraphQuery) (s : Store) (e : Relationship) : Prop :=
  e ∈ s.edges ∧ e.tenantId = tenantId ∧ e.isActive ∧ query.allows e

/-- The node at the other end of an edge that leaves `x`. -/
def Joins (direction : Direction) (x y : Uuid) (e : Relationship) : Prop :=
  match direction with
  | .downstream => e.sourceResourceId = x ∧ e.targetResourceId = y
  | .upstream => e.targetResourceId = x ∧ e.sourceResourceId = y
  | .both => e.sourceResourceId = x ∧ e.targetResourceId = y ∨
      e.targetResourceId = x ∧ e.sourceResourceId = y

/-- One hop in the direction of the query. -/
def Hop (tenantId : Uuid) (query : GraphQuery) (s : Store) (x y : Uuid) : Prop :=
  ∃ e, Usable tenantId query s e ∧ Joins query.direction x y e

/-- Reached from the root in at most `n` hops. -/
abbrev Reached (tenantId : Uuid) (query : GraphQuery) (s : Store) (n : Nat) (x : Uuid) : Prop :=
  Walk.Within (Hop tenantId query s) query.rootResourceId n x

/-- The edge leaves a node nearer than `n` hops. -/
def LeavesWithin (tenantId : Uuid) (query : GraphQuery) (s : Store) (n : Nat) (e : Relationship) : Prop :=
  Usable tenantId query s e ∧
    ∃ j < n, ∃ x, Reached tenantId query s j x ∧ Leaves query.direction x e

variable {order : Query.RowOrder Relationship} {tenantId : Uuid} {query : GraphQuery} {s : Store}

theorem ends_of_leaves {direction : Direction} {x y : Uuid} {e : Relationship}
    (h : Leaves direction x e) (hy : y = e.sourceResourceId ∨ y = e.targetResourceId) :
    y = x ∨ Joins direction x y e := by
  cases direction <;> simp only [Leaves, Joins] at h ⊢ <;> grind

theorem leaves_of_joins {direction : Direction} {x y : Uuid} {e : Relationship}
    (h : Joins direction x y e) :
    Leaves direction x e ∧ (y = e.sourceResourceId ∨ y = e.targetResourceId) := by
  cases direction <;> simp only [Leaves, Joins] at h ⊢ <;> grind

theorem LeavesWithin.mono {m n : Nat} {e : Relationship} (h : LeavesWithin tenantId query s m e)
    (hmn : m ≤ n) : LeavesWithin tenantId query s n e := by
  obtain ⟨husable, j, hj, hx⟩ := h
  exact ⟨husable, j, by omega, hx⟩

/-- Both ends of an edge that leaves a node nearer than `n` hops are within `n` hops. -/
theorem LeavesWithin.ends {n : Nat} {e : Relationship} (h : LeavesWithin tenantId query s n e)
    {y : Uuid} (hy : y = e.sourceResourceId ∨ y = e.targetResourceId) :
    Reached tenantId query s n y := by
  obtain ⟨husable, j, hj, x, hx, hleaves⟩ := h
  cases ends_of_leaves hleaves hy with
  | inl heq =>
    rw [heq]
    exact hx.mono (by omega)
  | inr hjoins => exact (Walk.Within.hop hx ⟨e, husable, hjoins⟩).mono hj

/-! ### The edges collected -/

/-- `edges_by_id` has the edges of `P`, each once, under its id. -/
structure Collected (s : Store) (byId : List (Uuid × Relationship)) (P : Relationship → Prop) : Prop where
  nodup : (byId.map Prod.fst).Nodup
  mem : ∀ p, p ∈ byId ↔ ∃ e ∈ s.edges, P e ∧ p = (e.id, e)

namespace Collected

theorem nil : Collected s [] fun _ => False where
  nodup := List.nodup_nil
  mem := by simp

variable {byId : List (Uuid × Relationship)} {P Q : Relationship → Prop}

theorem congr (h : Collected s byId P) (hPQ : ∀ e ∈ s.edges, P e ↔ Q e) : Collected s byId Q where
  nodup := h.nodup
  mem := fun p => (h.mem p).trans
    (exists_congr fun e => and_congr_right fun he => and_congr_left fun _ => hPQ e he)

/-- An edge collected again replaces itself. -/
theorem set (h : Collected s byId P) {e : Relationship} (he : e ∈ s.edges) :
    Collected s (Dict.set byId e.id e) fun r => P r ∨ r = e where
  nodup := Dict.nodup_set h.nodup e.id e
  mem := by
    intro p
    rw [Dict.mem_set, h.mem]
    refine ⟨?_, ?_⟩
    · intro hp
      cases hp with
      | inl hp => exact ⟨e, he, .inr rfl, hp⟩
      | inr hp =>
        obtain ⟨⟨r, hr, hPr, heq⟩, _⟩ := hp
        exact ⟨r, hr, .inl hPr, heq⟩
    · intro hp
      obtain ⟨r, hr, hPr, rfl⟩ := hp
      by_cases hid : r.id = e.id
      · exact .inl (by rw [s.edgeIds.eq hr he hid])
      · refine .inr ⟨⟨r, hr, hPr.resolve_right fun hre => hid (by rw [hre]), rfl⟩, hid⟩

theorem values (h : Collected s byId P) {e : Relationship} :
    e ∈ byId.map Prod.snd ↔ e ∈ s.edges ∧ P e := by
  refine ⟨?_, ?_⟩
  · intro he
    obtain ⟨p, hp, rfl⟩ := List.mem_map.mp he
    obtain ⟨r, hr, hPr, rfl⟩ := (h.mem p).mp hp
    exact ⟨hr, hPr⟩
  · intro he
    exact List.mem_map.mpr ⟨(e.id, e), (h.mem _).mpr ⟨e, he.1, he.2, rfl⟩, rfl⟩

theorem nodup_values (h : Collected s byId P) : ((byId.map Prod.snd).map Relationship.id).Nodup := by
  have heq : (byId.map Prod.snd).map Relationship.id = byId.map Prod.fst := by
    rw [List.map_map]
    refine List.map_congr_left fun p hp => ?_
    obtain ⟨r, _, _, rfl⟩ := (h.mem p).mp hp
    rfl
  rw [heq]
  exact h.nodup

end Collected

/-! ### One layer -/

/-- A scan that does not stop early has seen both ends of every edge allowed. -/
theorem scan_spec {visited next : Finset Uuid} {edges : List Relationship}
    {byId : List (Uuid × Relationship)} {P : Relationship → Prop} (hedges : ∀ e ∈ edges, e ∈ s.edges)
    (hbyId : Collected s byId P) (hdone : (scan query visited edges next byId).2.2 = false) :
    (∀ y, y ∈ (scan query visited edges next byId).1 ↔ y ∈ next ∨
      ∃ e ∈ edges, query.allows e ∧ (y = e.sourceResourceId ∨ y = e.targetResourceId)) ∧
    Collected s (scan query visited edges next byId).2.1 fun e => P e ∨ e ∈ edges ∧ query.allows e := by
  induction edges generalizing next byId P with
  | nil => exact ⟨by simp [scan], hbyId.congr (by simp)⟩
  | cons e rest ih =>
    have hrest : ∀ r ∈ rest, r ∈ s.edges := fun r hr => hedges r (List.mem_cons_of_mem e hr)
    rw [scan] at hdone ⊢
    by_cases hallows : query.allows e
    · rw [if_pos hallows] at hdone ⊢
      by_cases hfull : query.maxNodes ≤
          (visited ∪ insert e.sourceResourceId (insert e.targetResourceId next)).card
      · rw [if_pos hfull] at hdone
        cases hdone
      · rw [if_neg hfull] at hdone ⊢
        obtain ⟨hnext, hcollected⟩ := ih hrest (hbyId.set (hedges e List.mem_cons_self)) hdone
        refine ⟨fun y => ?_, hcollected.congr fun r _ => ?_⟩
        · rw [hnext]
          simp only [Finset.mem_insert, List.mem_cons, exists_eq_or_imp, hallows, true_and]
          grind
        · simp only [List.mem_cons]
          grind
    · rw [if_neg hallows] at hdone ⊢
      obtain ⟨hnext, hcollected⟩ := ih hrest hbyId hdone
      refine ⟨fun y => ?_, hcollected.congr fun r _ => ?_⟩
      · rw [hnext]
        simp [hallows]
      · simp only [List.mem_cons]
        grind

theorem mem_layer {depth : Nat} {frontier : Finset Uuid} {e : Relationship} :
    e ∈ order.arrange depth (edgesForFrontier tenantId frontier query.direction s) ∧ query.allows e ↔
      Usable tenantId query s e ∧ ∃ x ∈ frontier, Leaves query.direction x e := by
  rw [(order.perm _ _).mem_iff, edgesForFrontier, List.mem_filter, decide_eq_true_iff, leavesFrontier_iff, Usable]
  tauto

/-- The search after `k` layers. -/
structure Explored (tenantId : Uuid) (query : GraphQuery) (s : Store) (k : Nat) (search : Search) :
    Prop where
  layer : Walk.Layer (Hop tenantId query s) query.rootResourceId k
    (· ∈ search.visited) (· ∈ search.frontier)
  edges : Collected s search.edgesById (LeavesWithin tenantId query s k)

/-- The edges a layer adds leave its frontier. -/
theorem leavesWithin_succ {k : Nat} {visited frontier : Finset Uuid}
    (h : Walk.Layer (Hop tenantId query s) query.rootResourceId k (· ∈ visited) (· ∈ frontier))
    {e : Relationship} : LeavesWithin tenantId query s k e ∨
      (Usable tenantId query s e ∧ ∃ x ∈ frontier, Leaves query.direction x e) ↔
      LeavesWithin tenantId query s (k + 1) e := by
  refine ⟨?_, ?_⟩
  · intro he
    cases he with
    | inl he => exact he.mono (Nat.le_succ k)
    | inr he =>
      obtain ⟨husable, x, hx, hleaves⟩ := he
      exact ⟨husable, k, Nat.lt_succ_self k, x, ((h.frontier x).mp hx).1, hleaves⟩
  · intro he
    obtain ⟨husable, j, hj, x, hx, hleaves⟩ := he
    by_cases hfrontier : x ∈ frontier
    · exact .inr ⟨husable, x, hfrontier, hleaves⟩
    · have hearlier : ∃ i < k, Reached tenantId query s i x := by
        by_contra hnone
        push Not at hnone
        exact hfrontier ((h.frontier x).mpr ⟨hx.mono (by omega), hnone⟩)
      obtain ⟨i, hi, hxi⟩ := hearlier
      exact .inl ⟨husable, i, hi, x, hxi, hleaves⟩

theorem explored_expand {k : Nat} {search : Search} (h : Explored tenantId query s k search)
    (hdone : (expand order tenantId query s k search).truncated = false) :
    Explored tenantId query s (k + 1) (expand order tenantId query s k search) := by
  have hedges : ∀ e ∈ order.arrange k (edgesForFrontier tenantId search.frontier query.direction s),
      e ∈ s.edges := by
    intro e he
    rw [(order.perm _ _).mem_iff] at he
    exact (List.mem_filter.mp he).1
  obtain ⟨hnext, hcollected⟩ := scan_spec hedges h.edges hdone
  have hfound : ∀ y, y ∈ (scan query search.visited (order.arrange k
      (edgesForFrontier tenantId search.frontier query.direction s)) ∅ search.edgesById).1 ↔
      ∃ e, Usable tenantId query s e ∧ (∃ x ∈ search.frontier, Leaves query.direction x e) ∧
        (y = e.sourceResourceId ∨ y = e.targetResourceId) := by
    intro y
    rw [hnext]
    simp only [Finset.notMem_empty, false_or, ← and_assoc, mem_layer]
  have hlayer := @Walk.Layer.next _ _ _ k _ _ (· ∈ (scan query search.visited (order.arrange k
      (edgesForFrontier tenantId search.frontier query.direction s)) ∅ search.edgesById).1) h.layer ?_ ?_
  · refine ⟨?_, hcollected.congr fun e _ => ?_⟩
    · refine ⟨fun y => ?_, fun y => ?_⟩
      · rw [← hlayer.visited]
        simp [expand]
      · rw [← hlayer.frontier]
        simp [expand]
    · rw [← leavesWithin_succ h.layer, mem_layer]
  · intro y hy
    obtain ⟨e, husable, ⟨x, hx, hleaves⟩, hends⟩ := (hfound y).mp hy
    cases ends_of_leaves hleaves hends with
    | inl heq =>
      rw [heq]
      exact .inl ((h.layer.visited x).mpr ((h.layer.frontier x).mp hx).1)
    | inr hjoins => exact .inr ⟨x, hx, e, husable, hjoins⟩
  · intro x y hx hhop
    obtain ⟨e, husable, hjoins⟩ := hhop
    obtain ⟨hleaves, hends⟩ := leaves_of_joins hjoins
    exact (hfound y).mpr ⟨e, husable, ⟨x, hx, hleaves⟩, hends⟩

/-! ### All layers -/

/-- What a search for `n` hops should end with. -/
structure Complete (tenantId : Uuid) (query : GraphQuery) (s : Store) (n : Nat) (search : Search) :
    Prop where
  visited : ∀ x, x ∈ search.visited ↔ Reached tenantId query s n x
  edges : Collected s search.edgesById (LeavesWithin tenantId query s n)

/-- With nothing left on the frontier, more layers would add nothing. -/
theorem complete_of_done {k n : Nat} {search : Search} (h : Explored tenantId query s k search)
    (hdone : search.frontier = ∅) (hkn : k ≤ n) : Complete tenantId query s n search := by
  have hempty : ∀ x, ¬ x ∈ search.frontier := by simp [hdone]
  refine ⟨fun x => ?_, h.edges.congr fun e _ => ?_⟩
  · rw [h.layer.visited]
    refine ⟨?_, ?_⟩
    · intro hx
      exact hx.mono hkn
    · intro hx
      obtain ⟨j, hj, hxj⟩ := h.layer.within_of_done hempty hx
      exact hxj.mono hj.le
  · constructor
    · intro he
      exact he.mono hkn
    · intro he
      obtain ⟨husable, _, _, x, hx, hleaves⟩ := he
      obtain ⟨j, hj, hxj⟩ := h.layer.within_of_done hempty hx
      exact ⟨husable, j, hj, x, hxj, hleaves⟩

theorem layers_spec {remaining k : Nat} {search : Search} (h : Explored tenantId query s k search)
    (hdone : (layers order tenantId query s remaining k search).truncated = false) :
    Complete tenantId query s (k + remaining) (layers order tenantId query s remaining k search) := by
  induction remaining generalizing k search with
  | zero => exact ⟨h.layer.visited, h.edges⟩
  | succ remaining ih =>
    rw [layers] at hdone ⊢
    by_cases hstop : (expand order tenantId query s k search).truncated ∨
        (expand order tenantId query s k search).frontier = ∅
    · rw [if_pos hstop] at hdone ⊢
      have hempty := hstop.resolve_left (by simp [hdone])
      exact complete_of_done (explored_expand h hdone) hempty (by omega)
    · rw [if_neg hstop] at hdone ⊢
      have htruncated : (expand order tenantId query s k search).truncated = false := by
        simpa using fun ht => hstop (.inl ht)
      have hcomplete := ih (explored_expand h htruncated) hdone
      rwa [Nat.add_right_comm] at hcomplete

theorem explored_start : Explored tenantId query s 0
    ⟨{query.rootResourceId}, {query.rootResourceId}, [], false⟩ where
  layer := by
    have h : Walk.Layer (Hop tenantId query s) query.rootResourceId 0 _ _ := Walk.Layer.start
    simpa using h
  edges := Collected.nil.congr fun e _ => by simp [LeavesWithin]

theorem complete_graphSearch (hwhole : (graphSearch order tenantId query s).truncated = false) :
    Complete tenantId query s query.maxDepth (graphSearch order tenantId query s) := by
  rw [← Nat.zero_add query.maxDepth]
  exact layers_spec explored_start hwhole

/-! ### The answer -/

/-- The last filter keeps every edge when both ends of each were visited. -/
theorem edges_graph (hends : ∀ e ∈ (graphSearch order tenantId query s).edgesById.map Prod.snd,
      e.sourceResourceId ∈ (graphSearch order tenantId query s).visited ∧
        e.targetResourceId ∈ (graphSearch order tenantId query s).visited) :
    (graph order tenantId query s).edges =
      ((graphSearch order tenantId query s).edgesById.map Prod.snd).map graphEdge := by
  show (List.filter _ _).map graphEdge = _
  rw [List.filter_eq_self.mpr]
  intro e he
  exact decide_eq_true (hends e he)

/-- The nodes of an answer are those of the tenant that were visited. -/
theorem mem_ids_graph {x : Uuid} : x ∈ (graph order tenantId query s).nodes.map GraphNode.id ↔
    (∃ n ∈ s.nodes, n.tenantId = tenantId ∧ n.inventoryResourceId = x) ∧
      x ∈ (graphSearch order tenantId query s).visited := by
  simp only [graph, getNodes, List.map_map, List.mem_map, List.mem_filter, decide_eq_true_iff,
    Function.comp_apply, graphNode]
  grind

/-- **A graph answer that is not truncated is the neighbourhood of the root**: its nodes are
the nodes of the tenant within `max_depth` hops, its edges are the edges that leave
something nearer, each once. -/
theorem graph_exact (order : Query.RowOrder Relationship) (tenantId : Uuid) (query : GraphQuery)
    (s : Store) (hwhole : (graph order tenantId query s).truncated = false) :
    (∀ x, x ∈ (graph order tenantId query s).nodes.map GraphNode.id ↔
      (∃ n ∈ s.nodes, n.tenantId = tenantId ∧ n.inventoryResourceId = x) ∧
        Reached tenantId query s query.maxDepth x) ∧
    ((graph order tenantId query s).edges.map GraphEdge.id).Nodup ∧
    ∀ g, g ∈ (graph order tenantId query s).edges ↔
      ∃ e, LeavesWithin tenantId query s query.maxDepth e ∧ g = graphEdge e := by
  have hcomplete : Complete tenantId query s query.maxDepth (graphSearch order tenantId query s) :=
    complete_graphSearch hwhole
  have hedges : (graph order tenantId query s).edges =
      ((graphSearch order tenantId query s).edgesById.map Prod.snd).map graphEdge := by
    apply edges_graph
    intro e he
    have hleaves := (hcomplete.edges.values.mp he).2
    rw [hcomplete.visited, hcomplete.visited]
    exact ⟨hleaves.ends (.inl rfl), hleaves.ends (.inr rfl)⟩
  refine ⟨fun x => ?_, ?_, fun g => ?_⟩
  · rw [← hcomplete.visited]
    exact mem_ids_graph
  · rw [hedges, List.map_map]
    exact hcomplete.edges.nodup_values
  · rw [hedges, List.mem_map]
    refine ⟨?_, ?_⟩
    · intro hg
      obtain ⟨e, he, rfl⟩ := hg
      exact ⟨e, (hcomplete.edges.values.mp he).2, rfl⟩
    · intro hg
      obtain ⟨e, he, rfl⟩ := hg
      exact ⟨e, hcomplete.edges.values.mpr ⟨he.1.1, he⟩, rfl⟩

/-- An edge of tenant 7. -/
def sampleEdge (id source target : Uuid) : Relationship where
  id := id
  tenantId := 7
  sourceResourceId := source
  targetResourceId := target
  relationshipType := "references"
  sourceSystem := "azure-resource-properties"
  dependencyStrength := "hard"
  confidence := 1
  evidence := evidence "$.id"
  extractorName := "arm-reference"
  extractorVersion := "1.0.0"
  isActive := true
  firstObservedAt := 0
  lastObservedAt := 0

def sampleNode (id inventoryResourceId : Uuid) (name : String) : ResourceNode where
  id := id
  tenantId := 7
  inventoryResourceId := inventoryResourceId
  azureResourceId := name
  normalizedResourceId := name
  name := name
  resourceType := "microsoft.compute/virtualmachines"
  resourceGroup := "main"
  properties := evidence "$.id"
  isActive := true

/-- Resources 1 and 2 refer to each other, and 2 to 3, which has no node. -/
def sampleStore : Store where
  nodes := [sampleNode 20 1 "a", sampleNode 21 2 "b"]
  edges := [sampleEdge 10 1 2, sampleEdge 11 2 1, sampleEdge 12 2 3]
  nodeIds := by unfold Table.Unique; decide +kernel
  inventoryIds := by unfold Table.Unique; decide +kernel
  armIds := by unfold Table.Unique; decide +kernel
  edgeIds := by unfold Table.Unique; decide +kernel
  edgeKeys := by unfold Table.Unique; decide +kernel
  noSelfLoop := by simp [sampleEdge]
  confidenceRange := by simp [Relationship.ConfidenceRange, sampleEdge]
  strength := by simp [Relationship.Strength, sampleEdge]

def sampleQuery : GraphQuery where
  rootResourceId := 1
  direction := .downstream
  maxDepth := 3
  maxNodes := 500
  relationshipTypes := []

theorem graph_exact_sampleStore :
    (graph (.stored _) 7 sampleQuery sampleStore).truncated = false ∧
    (∀ x, x ∈ (graph (.stored _) 7 sampleQuery sampleStore).nodes.map GraphNode.id ↔
      (∃ n ∈ sampleStore.nodes, n.tenantId = 7 ∧ n.inventoryResourceId = x) ∧
        Reached 7 sampleQuery sampleStore 3 x) ∧
    ∀ g, g ∈ (graph (.stored _) 7 sampleQuery sampleStore).edges ↔
      ∃ e, LeavesWithin 7 sampleQuery sampleStore 3 e ∧ g = graphEdge e := by
  have hwhole : (graph (.stored _) 7 sampleQuery sampleStore).truncated = false := by decide +kernel
  obtain ⟨hnodes, _, hedges⟩ := graph_exact (.stored _) 7 sampleQuery sampleStore hwhole
  exact ⟨hwhole, hnodes, hedges⟩

end Sentinel.Relationships
