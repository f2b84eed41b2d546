import Sentinel.Common.Context
import Sentinel.Library.Jsonb

/-! The operations service: its table, and `create`.

The handler looks the key up and inserts if nothing is there; the unique constraint decides
between two that look at once. -/
namespace Sentinel.Operations
open Library Library.Table Common

structure ActionDefinition where
  actionType : String
  enabled : Bool

/-- `ACTION_CATALOG`. -/
def actionCatalog : List ActionDefinition :=
  [⟨"azure.vm.start", false⟩,
   ⟨"azure.vm.stop", false⟩,
   ⟨"azure.vm.restart", false⟩,
   ⟨"kubernetes.deployment.restart", false⟩,
   ⟨"kubernetes.deployment.scale", false⟩,
   ⟨"azure.keyvault.secret.rotate", false⟩,
   ⟨"azure.resource.tags.patch", false⟩]

inductive OperationStatus where
  | draft
  | awaitingApproval
  | ready
  | queued
  | running
  | succeeded
  | failed
  | cancelled
  | rejected
  | compensating
  | compensated

/-- The name of the value in the enumeration. -/
def OperationStatus.name : OperationStatus → String
  | .draft => "draft"
  | .awaitingApproval => "awaiting_approval"
  | .ready => "ready"
  | .queued => "queued"
  | .running => "running"
  | .succeeded => "succeeded"
  | .failed => "failed"
  | .cancelled => "cancelled"
  | .rejected => "rejected"
  | .compensating => "compensating"
  | .compensated => "compensated"

structure Operation where
  id : Uuid
  tenantId : Uuid
  assessmentId : Uuid
  assessmentInputSha256 : String
  actionType : String
  targetResourceId : Uuid
  requestedBy : Uuid
  reason : String
  status : OperationStatus
  idempotencyKey : String
  /-- `policy_snapshot["executor_enabled"]`. -/
  executorEnabled : Bool
  parametersSnapshot : Json
  correlationId : Uuid

/-- `uq_operation_idempotency`. -/
def Operation.key (o : Operation) : Uuid × String := (o.tenantId, o.idempotencyKey)

structure Store where
  operations : List Operation
  ids : Unique Operation.id operations
  keys : Unique Operation.key operations

/-- Why a statement failed. -/
inductive Failure where
  /-- A column does not take the value. -/
  | refused
  | primaryKey
  | uqOperationIdempotency
  deriving DecidableEq

def Store.empty : Store := ⟨[], unique_nil, unique_nil⟩

/-- What the columns take. -/
def Operation.taken (o : Operation) : Bool :=
  [o.assessmentInputSha256, o.actionType, o.reason, o.idempotencyKey].all Json.storableText &&
    o.parametersSnapshot.storable

/-- What the table keeps of an operation. -/
def Operation.stored (o : Operation) : Operation := {o with parametersSnapshot := o.parametersSnapshot.reload}

/-- The INSERT. The `status` column is an ENUM of the database and a text of the ORM; it is
assumed to take the text it is sent. -/
def Store.insert (s : Store) (o : Operation) : Except Failure Store :=
  if !o.taken then .error .refused
  else if hid : o.id ∈ s.operations.map Operation.id then .error .primaryKey
  else if hkey : o.key ∈ s.operations.map Operation.key then .error .uqOperationIdempotency
  else .ok
    ⟨s.operations ++ [o.stored], unique_snoc.mpr ⟨hid, s.ids⟩, unique_snoc.mpr ⟨hkey, s.keys⟩⟩

theorem insert_operations {s s' : Store} {o : Operation} (h : s.insert o = .ok s') :
    s'.operations = s.operations ++ [o.stored] := by
  unfold Store.insert at h
  split_ifs at h
  cases h
  rfl

/-! ### The handler -/

structure OperationCreate where
  assessmentId : Uuid
  assessmentInputHash : String
  actionType : String
  targetResourceId : Uuid
  parameters : Json.Object
  reason : String

/-- How far `create` is. -/
inductive Creating where
  | begun
  | looked (operation : Upsert Operation)

section Create
variable (actor : ActorContext) (request : OperationCreate) (idempotencyKey : String)

def newOperation (id : Uuid) (definition : ActionDefinition) : Operation where
  id := id
  tenantId := actor.tenantId
  assessmentId := request.assessmentId
  assessmentInputSha256 := request.assessmentInputHash
  actionType := request.actionType
  targetResourceId := request.targetResourceId
  requestedBy := actor.actorId
  reason := request.reason
  status := .draft
  idempotencyKey := idempotencyKey
  executorEnabled := definition.enabled
  parametersSnapshot := request.parameters.json
  correlationId := actor.correlationId

/-- The next query; an action that is not in the catalog is answered 422. -/
def create (id : Uuid) (s : Store) : Creating → Option Creating
  | .begun => (actionCatalog.find? fun item => item.actionType = request.actionType).map fun definition =>
    .looked (lookup (s.operations.find? fun o => o.key = (actor.tenantId, idempotencyKey))
      (newOperation actor request idempotencyKey id definition))
  | .looked _ => none

def operationCreated (o : Operation) (e : Envelope) : AuditEvent where
  id := e.eventId
  source := "operations-service"
  type := "operations.created.v1"
  subject := "operation/" ++ o.id.str
  time := e.time
  tenantId := actor.tenantId
  correlationId := actor.correlationId
  data := ⟨[("action_type", .str request.actionType), ("status", .str o.status.name)], by simp [Json.WellFormed]⟩
  actorType := "user"
  actorId := actor.actorId.str
  action := "operation.create"
  entityType := "operation"
  entityId := some o.id.str
  outcome := "created"

end Create
end Sentinel.Operations
