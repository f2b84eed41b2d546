import Sentinel.Audit.Canonical
import Sentinel.Audit.Models
import Sentinel.Library.Query

/-! `AuditRepository`: the queries of `ingest`, the rows it writes, `search`.

`ingest` here is the whole function run with nobody else on the tables; the
transactions of `Audit/Ingest.lean` take its parts one query at a time. -/
namespace Sentinel.Audit
open Library Library.Json Common

/-! ### ingest -/

/-- The canonical object of an event appended after the row with hash `previousHash`. -/
def canonical (event : AuditEvent) (previousHash : Option String) : Canonical where
  eventId := event.id
  tenantId := event.tenantId
  occurredAt := String.ofList event.time.isoformat
  actorType := event.actorType
  actorId := event.actorId
  action := event.action
  entityType := event.entityType
  entityId := event.entityId
  outcome := event.outcome
  source := event.source
  correlationId := event.correlationId
  data := event.data
  previousHash := previousHash

/-- The duplicate check. -/
def existing (logs : List AuditLog) (tenantId eventId : Uuid) : Option AuditLog :=
  logs.find? fun r => r.tenantId = tenantId ∧ r.eventId = eventId

/-- `ORDER BY ingested_at DESC, id DESC`. -/
def latestFirst (r q : AuditLog) : Prop :=
  q.ingestedAt < r.ingestedAt ∨ q.ingestedAt = r.ingestedAt ∧ q.id ≤ r.id

instance : DecidableRel latestFirst := fun r q => by unfold latestFirst; infer_instance

def ofTenant (tenantId : Uuid) (logs : List AuditLog) : List AuditLog :=
  logs.filter fun r => r.tenantId = tenantId

/-- The row a new row of the tenant is chained to. -/
def previous (logs : List AuditLog) (tenantId : Uuid) : Option AuditLog :=
  Query.first latestFirst (ofTenant tenantId logs)

/-- `UUID(event.actor_id) if event.actor_type == "user" else None`; `none` when it raises. -/
def userId (host : Host) (event : AuditEvent) : Option (Option Uuid) :=
  if event.actorType = "user" then (host.uuid event.actorId).map some else some none

/-- The texts of the event that go to `text` columns. -/
def columnTexts (event : AuditEvent) : List String :=
  [event.actorType, event.actorId, event.action, event.entityType, event.entityId.getD "",
    event.outcome, event.source, event.type]

/-- What the columns take: no NUL in a text, a `jsonb` value in the metadata. -/
def columnsTake (event : AuditEvent) : Bool :=
  (columnTexts event).all storableText && storable event.data.json

/-- The `audit_logs` row as the table keeps it. -/
def auditLog (event : AuditEvent) (previousHash : Option String) (id : Uuid)
    (occurredAt : Timestamp) (now : Instant) : AuditLog where
  id := id
  tenantId := event.tenantId
  eventId := event.id
  occurredAt := occurredAt
  ingestedAt := now
  actorType := event.actorType
  actorId := event.actorId
  action := event.action
  entityType := event.entityType
  entityId := event.entityId
  outcome := event.outcome
  sourceService := event.source
  correlationId := event.correlationId
  metadata := event.data.reload
  previousHash := previousHash
  recordHash := (canonical event previousHash).recordHash

/-- `{"event_id": str(event.id)}`. -/
def activityMetadata (eventId : Uuid) : Json.Object where
  members := [("event_id", .str eventId.str)]
  wellFormed := by simp [WellFormed]

def activityEvent (event : AuditEvent) (id : Uuid) (user : Option Uuid) (occurredAt : Timestamp) :
    ActivityEvent where
  id := id
  tenantId := event.tenantId
  userId := user
  category := event.type
  message := event.action ++ " " ++ event.outcome
  relatedEntityType := event.entityType
  relatedEntityId := event.entityId
  occurredAt := occurredAt
  metadata := activityMetadata event.id

/-- The two rows an event adds; `none` when the actor id is no UUID, the time is out of
range or a column refuses its value. -/
def ingestRows (host : Host) (event : AuditEvent) (previousHash : Option String)
    (id activityId : Uuid) (now : Instant) : Option (AuditLog × ActivityEvent) :=
  if columnsTake event then
    (userId host event).bind fun user =>
      (event.time.timestamp host.localOffset).map fun occurredAt =>
        (auditLog event previousHash id occurredAt now, activityEvent event activityId user occurredAt)
  else none

/-- The primary keys and the unique constraint of `schema.sql` let the rows in. -/
def Admits (s : Tables) (log : AuditLog) (activity : ActivityEvent) : Prop :=
  (∀ r ∈ s.logs, r.primaryKey ≠ log.primaryKey ∧ r.uniqueKey ≠ log.uniqueKey) ∧
    ∀ a ∈ s.activity, a.id ≠ activity.id

instance (s : Tables) (log : AuditLog) (activity : ActivityEvent) :
    Decidable (Admits s log activity) := by
  unfold Admits; infer_instance

def Tables.insert (s : Tables) (log : AuditLog) (activity : ActivityEvent) : Tables :=
  ⟨s.logs ++ [log], s.activity ++ [activity]⟩

/-- `ingest`, with the ids and the transaction start the database would supply. -/
def ingest (host : Host) (event : AuditEvent) (id activityId : Uuid) (now : Instant) (s : Tables) :
    Option (AuditLog × Tables) :=
  match existing s.logs event.tenantId event.id with
  | some row => some (row, s)
  | none =>
    let previousHash := (previous s.logs event.tenantId).map AuditLog.recordHash
    (ingestRows host event previousHash id activityId now).bind fun (log, activity) =>
      if Admits s log activity then some (log, s.insert log activity) else none

/-- A host that reads one actor's id, hashes every tenant to one lock and is on UTC. -/
def sampleHost : Host where
  hashtext := fun _ => 0
  uuid := fun text => if text = (9 : Uuid).str then some 9 else none
  localOffset := fun _ => 0

/-! ### search -/

structure Search where
  start : Option Timestamp
  stop : Option Timestamp
  actorId : Option String
  action : Option String
  entityType : Option String
  entityId : Option String
  outcome : Option String
  correlationId : Option Uuid
  limit : Nat

/-- `column == value if value else None`: an empty text asks for nothing. -/
def asked (value : Option String) (column : String → Bool) : Bool :=
  match value with
  | some v => v.isEmpty || column v
  | none => true

def Search.admits (q : Search) (r : AuditLog) : Bool :=
  q.start.all (· ≤ r.occurredAt) && q.stop.all (r.occurredAt ≤ ·) &&
    asked q.actorId (r.actorId == ·) && asked q.action (r.action == ·) &&
    asked q.entityType (r.entityType == ·) && asked q.entityId (r.entityId == some ·) &&
    asked q.outcome (r.outcome == ·) && q.correlationId.all (r.correlationId == ·)

def search (tenantId : Uuid) (q : Search) (s : Tables) : List AuditLog :=
  (Query.orderBy (fun r p => p.occurredAt ≤ r.occurredAt)
    ((ofTenant tenantId s.logs).filter q.admits)).take q.limit

/-! ### What the queries find -/

theorem mem_ofTenant {tenantId : Uuid} {logs : List AuditLog} {r : AuditLog} :
    r ∈ ofTenant tenantId logs ↔ r ∈ logs ∧ r.tenantId = tenantId := by
  simp [ofTenant]

@[simp] theorem ofTenant_append (tenantId : Uuid) (logs more : List AuditLog) :
    ofTenant tenantId (logs ++ more) = ofTenant tenantId logs ++ ofTenant tenantId more :=
  List.filter_append ..

theorem ofTenant_singleton (tenantId : Uuid) (r : AuditLog) :
    ofTenant tenantId [r] = if r.tenantId = tenantId then [r] else [] := by
  simp [ofTenant, List.filter_singleton]

theorem existing_eq_some {logs : List AuditLog} {tenantId eventId : Uuid} {r : AuditLog}
    (h : existing logs tenantId eventId = some r) :
    r ∈ logs ∧ r.uqAuditEvent = (tenantId, eventId) := by
  refine ⟨List.mem_of_find?_eq_some h, ?_⟩
  simpa [AuditLog.uqAuditEvent] using List.find?_some h

instance : Std.Total latestFirst where
  total r q := by
    rcases Nat.lt_trichotomy r.ingestedAt q.ingestedAt with h | h | h
    · exact .inr (.inl h)
    · rcases Nat.le_total r.id.toNat q.id.toNat with hid | hid
      · exact .inr (.inr ⟨h, hid⟩)
      · exact .inl (.inr ⟨h.symm, hid⟩)
    · exact .inl (.inl h)

instance : IsTrans AuditLog latestFirst where
  trans r q p h h' := by
    rcases h with h | ⟨h, hid⟩ <;> rcases h' with h' | ⟨h', hid'⟩
    · exact .inl (Nat.lt_trans h' h)
    · exact .inl (h' ▸ h)
    · exact .inl (h ▸ h')
    · exact .inr ⟨h'.trans h, Nat.le_trans hid' hid⟩

/-- What a row that `ingest` writes says of its event. -/
theorem ingestRows_eq_some {host : Host} {event : AuditEvent} {previousHash : Option String}
    {id activityId : Uuid} {now : Instant} {log : AuditLog} {activity : ActivityEvent} :
    ingestRows host event previousHash id activityId now = some (log, activity) ↔
      columnsTake event ∧ ∃ user occurredAt, userId host event = some user ∧
        event.time.timestamp host.localOffset = some occurredAt ∧
        log = auditLog event previousHash id occurredAt now ∧
        activity = activityEvent event activityId user occurredAt := by
  unfold ingestRows
  split_ifs with h
  · simp only [Option.bind_eq_some_iff, Option.map_eq_some_iff, Prod.mk.injEq, h, true_and]
    refine ⟨?_, ?_⟩
    · rintro ⟨user, huser, t, ht, rfl, rfl⟩
      exact ⟨user, t, huser, ht, rfl, rfl⟩
    · rintro ⟨user, t, huser, ht, rfl, rfl⟩
      exact ⟨user, huser, t, ht, rfl, rfl⟩
  · simp [h]

end Sentinel.Audit
