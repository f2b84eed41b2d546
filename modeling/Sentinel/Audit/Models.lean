import Sentinel.Common.Events
import Sentinel.Library.Jsonb

/-! The audit tables, as `schema.sql` creates them.

`audit_logs` is unique on `(tenant_id, event_id, occurred_at)` and has the primary key
`(occurred_at, id)`; the ORM class declares `uq_audit_event` on `(tenant_id, event_id)`,
a constraint the database does not have. -/
namespace Sentinel.Audit
open Library

structure AuditLog where
  id : Uuid
  tenantId : Uuid
  eventId : Uuid
  occurredAt : Timestamp
  /-- `now()`: the start of the transaction that inserted the row. -/
  ingestedAt : Instant
  actorType : String
  actorId : String
  action : String
  entityType : String
  entityId : Option String
  outcome : String
  sourceService : String
  correlationId : Uuid
  metadata : Json.Object
  previousHash : Option String
  recordHash : String

structure ActivityEvent where
  id : Uuid
  tenantId : Uuid
  userId : Option Uuid
  category : String
  message : String
  relatedEntityType : String
  relatedEntityId : Option String
  occurredAt : Timestamp
  metadata : Json.Object

namespace AuditLog

/-- The columns of the primary key. -/
def primaryKey (r : AuditLog) : Timestamp × Uuid := (r.occurredAt, r.id)

/-- The columns of the unique constraint `schema.sql` declares. -/
def uniqueKey (r : AuditLog) : Uuid × Uuid × Timestamp := (r.tenantId, r.eventId, r.occurredAt)

/-- The columns of the unique constraint the ORM class declares. -/
def uqAuditEvent (r : AuditLog) : Uuid × Uuid := (r.tenantId, r.eventId)

end AuditLog

/-- What tells the event of an activity row: the tenant, and `metadata["event_id"]`. -/
def ActivityEvent.eventKey (a : ActivityEvent) : Uuid × Option String :=
  (a.tenantId, match a.metadata.members.lookup "event_id" with
    | some (.str text) => some text
    | _ => none)

/-- The committed rows of both tables, in the order they were committed. -/
structure Tables where
  logs : List AuditLog := []
  activity : List ActivityEvent := []

/-- What the service takes from its host: PostgreSQL's `hashtext`, Python's
`UUID(text)`, and the zone a datetime without one is taken in. -/
structure Host where
  hashtext : String → Int
  uuid : String → Option Uuid
  localOffset : Nat → Int

end Sentinel.Audit
