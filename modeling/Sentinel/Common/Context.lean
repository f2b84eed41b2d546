import Sentinel.Common.Outbox
import Sentinel.Library.Table

/-! What a command knows of its actor, what `AuditEvent` and `enqueue_audit` draw for it, and
the outbox table. -/
namespace Sentinel.Common
open Library

structure ActorContext where
  tenantId : Uuid
  entraTenantId : Uuid
  actorId : Uuid
  correlationId : Uuid

/-- The ids and times a command draws for its event and its outbox record. -/
structure Envelope where
  eventId : Uuid
  time : Datetime
  recordId : Uuid
  availableAt : Instant
  createdAt : Instant

/-- `platform.outbox`. -/
structure Outbox where
  records : List OutboxRecord
  ids : Table.Unique OutboxRecord.id records

namespace Outbox

def empty : Outbox := ⟨[], Table.unique_nil⟩

/-- The insert of an event's record. -/
def enqueue (o : Outbox) (event : AuditEvent) (e : Envelope) : Option Outbox :=
  if h : e.recordId ∈ o.records.map OutboxRecord.id then none
  else some
    ⟨o.records ++ [enqueueAudit event e.recordId e.availableAt e.createdAt], Table.unique_snoc.mpr ⟨h, o.ids⟩⟩

theorem enqueue_records {o o' : Outbox} {event : AuditEvent} {e : Envelope} (h : o.enqueue event e = some o') :
    o'.records = o.records ++ [enqueueAudit event e.recordId e.availableAt e.createdAt] := by
  unfold enqueue at h
  split_ifs at h
  cases h
  rfl

/-- The events of the records of a type. -/
def events (o : Outbox) (type : String) : List AuditEvent :=
  (o.records.filter fun r => r.eventType = type).map OutboxRecord.payload

theorem events_enqueue {o o' : Outbox} {event : AuditEvent} {e : Envelope} (h : o.enqueue event e = some o')
    (type : String) : o'.events type = o.events type ++ if event.type = type then [event] else [] := by
  unfold events
  rw [enqueue_records h, List.filter_append, List.map_append]
  congr 1
  by_cases htype : event.type = type
  · simp [enqueueAudit, htype]
  · simp [enqueueAudit, htype]

theorem events_same {o o' : Outbox} {event : AuditEvent} {e : Envelope} (h : o.enqueue event e = some o')
    {type : String} (htype : event.type = type) : o'.events type = o.events type ++ [event] := by
  rw [events_enqueue h, if_pos htype]

/-- An event of another type is none of these. -/
theorem events_other {o o' : Outbox} {event : AuditEvent} {e : Envelope} (h : o.enqueue event e = some o')
    {type : String} (htype : event.type ≠ type) : o'.events type = o.events type := by
  rw [events_enqueue h, if_neg htype, List.append_nil]

/-- The record of an event is new. -/
theorem exists_new {o o' : Outbox} {event : AuditEvent} {e : Envelope} (h : o.enqueue event e = some o') :
    ∃ r ∈ o'.records, r ∉ o.records ∧ r.payload = event := by
  refine ⟨enqueueAudit event e.recordId e.availableAt e.createdAt, ?_, fun hmem => ?_, rfl⟩
  · rw [enqueue_records h]
    exact List.mem_append_right _ (List.mem_singleton_self _)
  · unfold enqueue at h
    split_ifs at h with hnew
    exact hnew (List.mem_map_of_mem hmem)

end Outbox
end Sentinel.Common
