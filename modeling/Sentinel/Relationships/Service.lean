import Sentinel.Relationships.Repository

/-! `RelationshipService`: projecting an event, and rebuilding every edge of a tenant. -/
namespace Sentinel.Relationships
open Library Common

section Service
variable (py : Python) (host : Host)

/-- The loop over the extractors, for one node. -/
def rebuildNode (tenantId : Uuid) (node : ResourceNode) : List Extractor → Nat → Store →
    Except Failure (Nat × Store)
  | [], changed, s => .ok (changed, s)
  | extractor :: rest, changed, s =>
    if extractor.supports node.resourceType then
      (rebuildEdges host tenantId node extractor (extractor.extract node.properties) changed s).bind
        fun (changed, s) => rebuildNode tenantId node rest changed s
    else rebuildNode tenantId node rest changed s

/-- `project_and_extract`. -/
def projectAndExtract (event : ResourceProjectionEvent) (s : Store) : Except Failure (Nat × Store) :=
  (upsertNode py host event s).bind fun (node, s) =>
    rebuildNode host event.tenantId node (defaultExtractors py) 0 s

/-- The loop over the nodes. -/
def rebuildNodes (tenantId : Uuid) : List ResourceNode → Nat → Store → Except Failure (Nat × Store)
  | [], changed, s => .ok (changed, s)
  | node :: rest, changed, s =>
    (rebuildNode host tenantId node (defaultExtractors py) changed s).bind fun (changed, s) =>
      rebuildNodes tenantId rest changed s

/-- `rebuild_all`. -/
def rebuildAll (tenantId : Uuid) (s : Store) : Except Failure (Nat × Store) :=
  rebuildNodes py host tenantId (host.nodeOrder.arrange 0 (listNodes tenantId s)) 0 s

end Service
end Sentinel.Relationships
