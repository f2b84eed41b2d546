import Sentinel.Library.Datetime
import Sentinel.Library.Jsonb
import Sentinel.Library.Table
import Sentinel.Library.Uuid

/-! The relationship tables, with the constraints of `schema.sql`.

A `Store` cannot break a constraint: an insert that would is refused with the name of the
constraint, and an update that leaves the key columns alone cannot. -/
namespace Sentinel.Relationships
open Library

structure ResourceNode where
  id : Uuid
  tenantId : Uuid
  inventoryResourceId : Uuid
  azureResourceId : String
  normalizedResourceId : String
  name : String
  resourceType : String
  resourceGroup : String
  properties : Json.Object
  isActive : Bool

structure Relationship where
  id : Uuid
  tenantId : Uuid
  sourceResourceId : Uuid
  targetResourceId : Uuid
  relationshipType : String
  sourceSystem : String
  dependencyStrength : String
  confidence : ℚ
  evidence : Json.Object
  extractorName : String
  extractorVersion : String
  isActive : Bool
  firstObservedAt : Instant
  lastObservedAt : Instant

/-- `uq_node_inventory_id`. -/
def ResourceNode.inventoryKey (n : ResourceNode) : Uuid × Uuid := (n.tenantId, n.inventoryResourceId)

/-- `uq_node_arm_id`. -/
def ResourceNode.armKey (n : ResourceNode) : Uuid × String := (n.tenantId, n.normalizedResourceId)

/-- `uq_relationship_edge`. -/
def Relationship.edgeKey (e : Relationship) : Uuid × Uuid × Uuid × String × String :=
  (e.tenantId, e.sourceResourceId, e.targetResourceId, e.relationshipType, e.sourceSystem)

/-- `relationship_confidence_range`. -/
def Relationship.ConfidenceRange (e : Relationship) : Prop := 0 ≤ e.confidence ∧ e.confidence ≤ 1

/-- `relationship_strength`. -/
def Relationship.Strength (e : Relationship) : Prop := e.dependencyStrength ∈ ["hard", "soft", "association"]

instance : DecidablePred Relationship.ConfidenceRange := fun e =>
  inferInstanceAs (Decidable (0 ≤ e.confidence ∧ e.confidence ≤ 1))

instance : DecidablePred Relationship.Strength := fun e =>
  inferInstanceAs (Decidable (e.dependencyStrength ∈ ["hard", "soft", "association"]))

/-- What `numeric(4, 3)` keeps of a value: three decimals, ties away from zero. -/
def numeric43 (q : ℚ) : ℚ :=
  if 0 ≤ q then ⌊q * 1000 + 1 / 2⌋ / 1000 else -(⌊-q * 1000 + 1 / 2⌋ / 1000)

structure Store where
  nodes : List ResourceNode
  edges : List Relationship
  nodeIds : Table.Unique ResourceNode.id nodes
  inventoryIds : Table.Unique ResourceNode.inventoryKey nodes
  armIds : Table.Unique ResourceNode.armKey nodes
  edgeIds : Table.Unique Relationship.id edges
  edgeKeys : Table.Unique Relationship.edgeKey edges
  noSelfLoop : ∀ e ∈ edges, e.sourceResourceId ≠ e.targetResourceId
  confidenceRange : ∀ e ∈ edges, e.ConfidenceRange
  strength : ∀ e ∈ edges, e.Strength

def Store.empty : Store where
  nodes := []
  edges := []
  nodeIds := Table.unique_nil
  inventoryIds := Table.unique_nil
  armIds := Table.unique_nil
  edgeIds := Table.unique_nil
  edgeKeys := Table.unique_nil
  noSelfLoop := by simp
  confidenceRange := by simp
  strength := by simp

/-- Why a statement failed. -/
inductive Failure where
  /-- A column does not take the value. -/
  | refused
  | primaryKey
  | uqNodeInventoryId
  | uqNodeArmId
  | uqRelationshipEdge
  | relationshipNoSelfLoop
  /-- The confidence is not between 0 and 1; the column overflows from 10 on. -/
  | relationshipConfidenceRange
  | relationshipStrength
  deriving DecidableEq

namespace Store

theorem forall_mem_snoc {p : Relationship → Prop} {edges : List Relationship} {e : Relationship}
    (h : ∀ r ∈ edges, p r) (he : p e) : ∀ r ∈ edges ++ [e], p r := by
  intro r hr
  rcases List.mem_append.mp hr with hr | hr
  · exact h r hr
  · obtain rfl := List.mem_singleton.mp hr
    exact he

def insertNode (s : Store) (n : ResourceNode) : Except Failure Store :=
  if hid : n.id ∈ s.nodes.map ResourceNode.id then .error .primaryKey
  else if hinventory : n.inventoryKey ∈ s.nodes.map ResourceNode.inventoryKey then
    .error .uqNodeInventoryId
  else if harm : n.armKey ∈ s.nodes.map ResourceNode.armKey then .error .uqNodeArmId
  else .ok {s with
    nodes := s.nodes ++ [n]
    nodeIds := Table.unique_snoc.mpr ⟨hid, s.nodeIds⟩
    inventoryIds := Table.unique_snoc.mpr ⟨hinventory, s.inventoryIds⟩
    armIds := Table.unique_snoc.mpr ⟨harm, s.armIds⟩}

def insertEdge (s : Store) (e : Relationship) : Except Failure Store :=
  if hid : e.id ∈ s.edges.map Relationship.id then .error .primaryKey
  else if hkey : e.edgeKey ∈ s.edges.map Relationship.edgeKey then .error .uqRelationshipEdge
  else if hloop : e.sourceResourceId = e.targetResourceId then .error .relationshipNoSelfLoop
  else if hconfidence : ¬ e.ConfidenceRange then .error .relationshipConfidenceRange
  else if hstrength : ¬ e.Strength then .error .relationshipStrength
  else .ok {s with
    edges := s.edges ++ [e]
    edgeIds := Table.unique_snoc.mpr ⟨hid, s.edgeIds⟩
    edgeKeys := Table.unique_snoc.mpr ⟨hkey, s.edgeKeys⟩
    noSelfLoop := forall_mem_snoc s.noSelfLoop hloop
    confidenceRange := forall_mem_snoc s.confidenceRange (not_not.mp hconfidence)
    strength := forall_mem_snoc s.strength (not_not.mp hstrength)}

/-- An insert that no constraint stops adds the row. -/
theorem insertNode_eq_ok {s t : Store} {n : ResourceNode} (h : s.insertNode n = .ok t) :
    t.nodes = s.nodes ++ [n] ∧ t.edges = s.edges := by
  unfold insertNode at h
  split_ifs at h
  cases h
  exact ⟨rfl, rfl⟩

theorem insertEdge_eq_ok {s t : Store} {e : Relationship} (h : s.insertEdge e = .ok t) :
    t.nodes = s.nodes ∧ t.edges = s.edges ++ [e] := by
  unfold insertEdge at h
  split_ifs at h
  cases h
  exact ⟨rfl, rfl⟩

/-- The update leaves the key columns of a node alone. -/
structure KeepsNode (f : ResourceNode → ResourceNode) : Prop where
  id : ∀ n, (f n).id = n.id
  inventoryKey : ∀ n, (f n).inventoryKey = n.inventoryKey
  armKey : ∀ n, (f n).armKey = n.armKey

/-- The update leaves the key columns of an edge alone, and those with a check. -/
structure KeepsEdge (f : Relationship → Relationship) : Prop where
  id : ∀ e, (f e).id = e.id
  edgeKey : ∀ e, (f e).edgeKey = e.edgeKey
  confidence : ∀ e, (f e).confidence = e.confidence
  dependencyStrength : ∀ e, (f e).dependencyStrength = e.dependencyStrength

def updateNodes (s : Store) (f : ResourceNode → ResourceNode) (hf : KeepsNode f) : Store :=
  {s with
    nodes := s.nodes.map f
    nodeIds := s.nodeIds.rewrite hf.id
    inventoryIds := s.inventoryIds.rewrite hf.inventoryKey
    armIds := s.armIds.rewrite hf.armKey}

def updateEdges (s : Store) (f : Relationship → Relationship) (hf : KeepsEdge f) : Store :=
  {s with
    edges := s.edges.map f
    edgeIds := s.edgeIds.rewrite hf.id
    edgeKeys := s.edgeKeys.rewrite hf.edgeKey
    noSelfLoop := by
      intro r hr
      obtain ⟨e, he, rfl⟩ := List.mem_map.mp hr
      have hkey := hf.edgeKey e
      simp only [Relationship.edgeKey, Prod.mk.injEq] at hkey
      rw [hkey.2.1, hkey.2.2.1]
      exact s.noSelfLoop e he
    confidenceRange := by
      intro r hr
      obtain ⟨e, he, rfl⟩ := List.mem_map.mp hr
      unfold Relationship.ConfidenceRange
      rw [hf.confidence]
      exact s.confidenceRange e he
    strength := by
      intro r hr
      obtain ⟨e, he, rfl⟩ := List.mem_map.mp hr
      unfold Relationship.Strength
      rw [hf.dependencyStrength]
      exact s.strength e he}

end Store
end Sentinel.Relationships
