import Sentinel.Library.Datetime
import Sentinel.Library.Json
import Sentinel.Library.Uuid

/-! The events services exchange: the CloudEvents envelope and what an audit event
adds to it. -/
namespace Sentinel.Common
open Library

structure CloudEvent where
  id : Uuid
  source : String
  type : String
  subject : String
  time : Datetime
  tenantId : Uuid
  correlationId : Uuid
  data : Json.Object

structure AuditEvent extends CloudEvent where
  actorType : String
  actorId : String
  action : String
  entityType : String
  entityId : Option String
  outcome : String

/-- A sync request as the inventory service reports it, at an instant. -/
def syncRequested (id : Uuid) (time : Timestamp) : AuditEvent where
  id := id
  source := "inventory-service"
  type := "inventory.sync-requested.v1"
  subject := "sync-job/5"
  time := Datetime.utc time
  tenantId := 3
  correlationId := 4
  data := ⟨[("mode", .str "incremental"), ("subscription_count", .int 2)], by simp [Json.WellFormed]⟩
  actorType := "user"
  actorId := (9 : Uuid).str
  action := "inventory.sync.request"
  entityType := "sync_job"
  entityId := some "5"
  outcome := "accepted"

end Sentinel.Common
