import Sentinel.Library.Query
import Sentinel.Relationships.Extractors
import Sentinel.Relationships.Models

/-! `RelationshipRepository`: each function as the source has it, on the store.

What a call takes from outside is its `Host`. A statement that fails ends the function with
its `Failure`, and the unit of work around it is then rolled back. -/
namespace Sentinel.Relationships
open Library Common

/-- What a call takes from the machines it runs on. -/
structure Host where
  /-- `now()` of the transaction. -/
  now : Instant
  /-- `datetime.now(UTC)`, as read for each edge. -/
  clock : Uuid → Instant
  nodeId : Uuid
  /-- The ids of new edges, in the order they are drawn. -/
  edgeIds : Nat → Uuid
  nodeOrder : Query.RowOrder ResourceNode
  edgeOrder : Query.RowOrder Relationship

structure ResourceProjectionEvent where
  tenantId : Uuid
  inventoryResourceId : Uuid
  azureResourceId : String
  name : String
  resourceType : String
  resourceGroup : String
  properties : Json.Object

section Nodes
variable (py : Python)

/-- The node an event inserts, as the session holds it. -/
def newNode (id : Uuid) (event : ResourceProjectionEvent) : ResourceNode where
  id := id
  tenantId := event.tenantId
  inventoryResourceId := event.inventoryResourceId
  azureResourceId := event.azureResourceId
  normalizedResourceId := py.lower event.azureResourceId
  name := event.name
  resourceType := py.lower event.resourceType
  resourceGroup := event.resourceGroup
  properties := event.properties
  isActive := true

/-- The same node after a later event; the ARM id stays. -/
def updatedNode (event : ResourceProjectionEvent) (n : ResourceNode) : ResourceNode :=
  {n with
    name := event.name
    resourceType := py.lower event.resourceType
    resourceGroup := event.resourceGroup
    properties := event.properties
    isActive := true}

/-- What the table keeps of a node. -/
def ResourceNode.stored (n : ResourceNode) : ResourceNode := {n with properties := n.properties.reload}

/-- The columns an update writes take their values. -/
def updateTaken (event : ResourceProjectionEvent) : Bool :=
  [event.name, py.lower event.resourceType, event.resourceGroup].all Json.storableText &&
    Json.storable event.properties.json

/-- The columns an insert writes take their values. -/
def insertTaken (event : ResourceProjectionEvent) : Bool :=
  updateTaken py event &&
    [event.azureResourceId, py.lower event.azureResourceId].all Json.storableText

/-- The update statement for the node of an event. -/
def updateNode (event : ResourceProjectionEvent) (n : ResourceNode) : ResourceNode :=
  if n.inventoryKey = (event.tenantId, event.inventoryResourceId) then
    (updatedNode py event n).stored
  else n

theorem keepsNode_updateNode (event : ResourceProjectionEvent) :
    Store.KeepsNode (updateNode py event) := by
  constructor <;> intro n <;> unfold updateNode <;> split_ifs <;> rfl

/-- `upsert_node`: the node in the session, and the store. -/
def upsertNode (host : Host) (event : ResourceProjectionEvent) (s : Store) :
    Except Failure (ResourceNode × Store) :=
  match s.nodes.find? fun n => n.inventoryKey = (event.tenantId, event.inventoryResourceId) with
  | none =>
    if insertTaken py event then
      (s.insertNode (newNode py host.nodeId event).stored).map fun s =>
        (newNode py host.nodeId event, s)
    else .error .refused
  | some node =>
    if updateTaken py event then
      .ok (updatedNode py event node, s.updateNodes (updateNode py event) (keepsNode_updateNode py event))
    else .error .refused

end Nodes

/-! ### Edges -/

/-- `{"path": path}`. -/
def evidence (path : String) : Json.Object where
  members := [("path", .str path)]
  wellFormed := by simp [Json.WellFormed]

/-- The edges `rebuild_edges` looks at. -/
def ofExtractor (tenantId source : Uuid) (extractor : Extractor) (e : Relationship) : Bool :=
  e.tenantId = tenantId ∧ e.sourceResourceId = source ∧ e.extractorName = extractor.name

def deactivate (tenantId source : Uuid) (extractor : Extractor) (e : Relationship) : Relationship :=
  if ofExtractor tenantId source extractor e then {e with isActive := false} else e

def reactivate (id : Uuid) (now : Instant) (path : String) (e : Relationship) : Relationship :=
  if e.id = id then {e with isActive := true, lastObservedAt := now, evidence := evidence path} else e

theorem keepsEdge_deactivate (tenantId source : Uuid) (extractor : Extractor) :
    Store.KeepsEdge (deactivate tenantId source extractor) := by
  constructor <;> intro e <;> unfold deactivate <;> split_ifs <;> rfl

theorem keepsEdge_reactivate (id : Uuid) (now : Instant) (path : String) :
    Store.KeepsEdge (reactivate id now path) := by
  constructor <;> intro e <;> unfold reactivate <;> split_ifs <;> rfl

theorem deactivate_eq (tenantId source : Uuid) (extractor : Extractor) (e : Relationship) :
    deactivate tenantId source extractor e =
      {e with isActive := !ofExtractor tenantId source extractor e && e.isActive} := by
  unfold deactivate; split_ifs with h <;> simp [h]

theorem reactivate_eq (id : Uuid) (now : Instant) (path : String) (e : Relationship) :
    reactivate id now path e = {e with
      isActive := decide (e.id = id) || e.isActive
      lastObservedAt := if e.id = id then now else e.lastObservedAt
      evidence := if e.id = id then evidence path else e.evidence} := by
  unfold reactivate; split_ifs with h <;> simp [h]

def newEdge (id tenantId source target : Uuid) (now : Instant) (extractor : Extractor)
    (c : EdgeCandidate) : Relationship where
  id := id
  tenantId := tenantId
  sourceResourceId := source
  targetResourceId := target
  relationshipType := c.relationshipType
  sourceSystem := "azure-resource-properties"
  dependencyStrength := c.dependencyStrength
  confidence := numeric43 c.confidence
  evidence := evidence c.evidencePath
  extractorName := extractor.name
  extractorVersion := extractor.version
  isActive := true
  firstObservedAt := now
  lastObservedAt := now

/-- The node a candidate names. -/
def targetNode (tenantId : Uuid) (s : Store) (c : EdgeCandidate) : Option ResourceNode :=
  s.nodes.find? fun n => n.armKey = (tenantId, c.targetResourceId)

section Edges
variable (host : Host) (tenantId : Uuid) (source : ResourceNode) (extractor : Extractor)

/-- One pass of the loop over the candidates, `drawn` edge ids having been used. -/
def rebuildEdge (current : List Relationship) (c : EdgeCandidate) (drawn : Nat) (s : Store) :
    Except Failure (Nat × Store) :=
  match targetNode tenantId s c with
  | none => .ok (drawn, s)
  | some target =>
    if target.inventoryResourceId = source.inventoryResourceId then .ok (drawn, s)
    else
      match current.find? fun e => e.targetResourceId = target.inventoryResourceId ∧
          e.relationshipType = c.relationshipType with
      | none =>
        (s.insertEdge (newEdge (host.edgeIds drawn) tenantId source.inventoryResourceId
          target.inventoryResourceId host.now extractor c)).map fun s => (drawn + 1, s)
      | some edge => .ok (drawn, s.updateEdges (reactivate edge.id (host.clock edge.id) c.evidencePath)
          (keepsEdge_reactivate edge.id (host.clock edge.id) c.evidencePath))

def rebuildLoop (current : List Relationship) : List EdgeCandidate → Nat → Store →
    Except Failure (Nat × Store)
  | [], drawn, s => .ok (drawn, s)
  | c :: rest, drawn, s =>
    (rebuildEdge host tenantId source extractor current c drawn s).bind fun (drawn, s) =>
      rebuildLoop current rest drawn s

/-- `rebuild_edges`: `changed` counts the new edges, over all calls so far. -/
def rebuildEdges (candidates : List EdgeCandidate) (changed : Nat) (s : Store) :
    Except Failure (Nat × Store) :=
  let current := host.edgeOrder.arrange 0
    (s.edges.filter (ofExtractor tenantId source.inventoryResourceId extractor))
  rebuildLoop host tenantId source extractor current candidates changed
    (s.updateEdges (deactivate tenantId source.inventoryResourceId extractor)
      (keepsEdge_deactivate tenantId source.inventoryResourceId extractor))

end Edges

/-! ### Queries -/

inductive Direction where
  | upstream
  | downstream
  | both
  deriving DecidableEq

/-- The edge leaves `x` in the direction of the query. -/
def Leaves (direction : Direction) (x : Uuid) (e : Relationship) : Prop :=
  match direction with
  | .downstream => e.sourceResourceId = x
  | .upstream => e.targetResourceId = x
  | .both => e.sourceResourceId = x ∨ e.targetResourceId = x

instance (direction : Direction) (x : Uuid) : DecidablePred (Leaves direction x) := fun e =>
  match direction with
  | .downstream => inferInstanceAs (Decidable (e.sourceResourceId = x))
  | .upstream => inferInstanceAs (Decidable (e.targetResourceId = x))
  | .both => inferInstanceAs (Decidable (e.sourceResourceId = x ∨ e.targetResourceId = x))

structure EdgeFilter where
  resourceId : Option Uuid
  direction : Direction
  relationshipType : Option String
  minimumConfidence : ℚ

/-- `list_edges`: an empty type asks for every type. -/
def listEdges (tenantId : Uuid) (q : EdgeFilter) (s : Store) : List Relationship :=
  (Query.orderBy (fun e f : Relationship => e.id ≤ f.id) (s.edges.filter fun e =>
    e.tenantId = tenantId ∧ e.isActive ∧ q.minimumConfidence ≤ e.confidence ∧
      (q.resourceId.all fun x => Leaves q.direction x e) ∧
      (q.relationshipType.all fun t => t = "" ∨ e.relationshipType = t))).take 2000

def getNodes (tenantId : Uuid) (ids : Finset Uuid) (s : Store) : List ResourceNode :=
  s.nodes.filter fun n => n.tenantId = tenantId ∧ n.inventoryResourceId ∈ ids

def listNodes (tenantId : Uuid) (s : Store) : List ResourceNode :=
  s.nodes.filter fun n => n.tenantId = tenantId ∧ n.isActive

/-- Nodes of one tenant are of different resources. -/
theorem nodup_resources {tenantId : Uuid} {s : Store} {p : ResourceNode → Bool}
    (hp : ∀ n, p n → n.tenantId = tenantId) :
    ((s.nodes.filter p).map ResourceNode.inventoryResourceId).Nodup := by
  refine List.Nodup.map_on ?_ (s.inventoryIds.of_map.filter _)
  intro n hn m hm heq
  obtain ⟨hn, hpn⟩ := List.mem_filter.mp hn
  obtain ⟨hm, hpm⟩ := List.mem_filter.mp hm
  exact s.inventoryIds.eq hn hm (Prod.ext ((hp n hpn).trans (hp m hpm).symm) heq)

/-- The edge leaves the frontier in the direction of the query. -/
def leavesFrontier (frontier : Finset Uuid) : Direction → Relationship → Bool
  | .downstream, e => e.sourceResourceId ∈ frontier
  | .upstream, e => e.targetResourceId ∈ frontier
  | .both, e => e.sourceResourceId ∈ frontier ∨ e.targetResourceId ∈ frontier

theorem leavesFrontier_iff {frontier : Finset Uuid} {direction : Direction} {e : Relationship} :
    leavesFrontier frontier direction e ↔ ∃ x ∈ frontier, Leaves direction x e := by
  cases direction <;> simp [leavesFrontier, Leaves, and_or_left, exists_or]

def edgesForFrontier (tenantId : Uuid) (frontier : Finset Uuid) (direction : Direction) (s : Store) :
    List Relationship :=
  s.edges.filter fun e => e.tenantId = tenantId ∧ e.isActive ∧ leavesFrontier frontier direction e

end Sentinel.Relationships
