import Sentinel.Audit.Repository
import Sentinel.Library.Table

/-! The audit trail as one tenant sees it.

`Tables.of` keeps the rows of a tenant: the duplicate check, the predecessor and a search
are all among them, and an event adds to them only. -/
namespace Sentinel.Audit
open Library Library.Table Common

/-- The rows of a tenant. -/
def Tables.of (s : Tables) (tenantId : Uuid) : Tables where
  logs := ofOwner AuditLog.tenantId tenantId s.logs
  activity := ofOwner ActivityEvent.tenantId tenantId s.activity

/-- What the statements of one tenant do to the tables. -/
structure Tables.WrittenBy (tenantId : Uuid) (s t : Tables) : Prop where
  logs : Table.WrittenBy AuditLog.tenantId AuditLog.id tenantId s.logs t.logs
  activity : Table.WrittenBy ActivityEvent.tenantId ActivityEvent.id tenantId s.activity t.activity

section Functions
variable {host : Host} {event : AuditEvent} {tenantId id activityId : Uuid} {now : Instant} {s s' : Tables}

theorem Tables.WrittenBy.refl (s : Tables) : Tables.WrittenBy tenantId s s := ⟨.refl _, .refl _⟩

/-- The other tenants keep their rows. -/
theorem Tables.WrittenBy.others (h : Tables.WrittenBy tenantId s s') {other : Uuid} (hne : other ≠ tenantId) :
    s'.of other = s.of other := by
  unfold Tables.of
  rw [h.logs.others other hne, h.activity.others other hne]

/-- The ids of the two rows are in no other tenant's. -/
structure NewRows (tenantId id activityId : Uuid) (s : Tables) : Prop where
  log : NewTo AuditLog.tenantId AuditLog.id tenantId s.logs id
  activity : NewTo ActivityEvent.tenantId ActivityEvent.id tenantId s.activity activityId

theorem existing_of (eventId : Uuid) : existing (s.of tenantId).logs tenantId eventId = existing s.logs tenantId eventId :=
  find?_ofOwner fun _ hr => (of_decide_eq_true hr).1

theorem ofTenant_of : ofTenant tenantId (s.of tenantId).logs = ofTenant tenantId s.logs :=
  filter_ofOwner fun _ hr => of_decide_eq_true hr

theorem insert_of {log : AuditLog} {activity : ActivityEvent} (hlog : log.tenantId = tenantId)
    (hactivity : activity.tenantId = tenantId) :
    (s.of tenantId).insert log activity = (s.insert log activity).of tenantId := by
  unfold Tables.insert Tables.of
  rw [ofOwner_snoc_own hlog, ofOwner_snoc_own hactivity]

/-- The keys can only be taken by rows of the tenant. -/
theorem admits_of (hnew : NewRows event.tenantId id activityId s) {previousHash : Option String} {user : Option Uuid}
    {occurredAt : Timestamp} :
    Admits (s.of event.tenantId) (auditLog event previousHash id occurredAt now)
        (activityEvent event activityId user occurredAt) ↔
      Admits s (auditLog event previousHash id occurredAt now) (activityEvent event activityId user occurredAt) := by
  unfold Admits
  refine ⟨?_, ?_⟩
  · intro h
    refine ⟨?_, ?_⟩
    · intro r hr
      by_cases howner : r.tenantId = event.tenantId
      · exact h.1 r (List.mem_filter.mpr ⟨hr, decide_eq_true howner⟩)
      · refine ⟨fun heq => hnew.log r hr howner ?_, fun heq => howner ?_⟩
        · exact congrArg Prod.snd heq
        · exact congrArg Prod.fst heq
    · intro a ha
      by_cases howner : a.tenantId = event.tenantId
      · exact h.2 a (List.mem_filter.mpr ⟨ha, decide_eq_true howner⟩)
      · exact hnew.activity a ha howner
  · intro h
    exact ⟨fun r hr => h.1 r (List.mem_of_mem_filter hr), fun a ha => h.2 a (List.mem_of_mem_filter ha)⟩

theorem ingest_of (hnew : NewRows event.tenantId id activityId s) :
    ingest host event id activityId now (s.of event.tenantId) =
      (ingest host event id activityId now s).map fun p => (p.1, p.2.of event.tenantId) := by
  unfold ingest previous
  rw [existing_of, ofTenant_of]
  cases existing s.logs event.tenantId event.id with
  | some row => rfl
  | none =>
    dsimp only
    cases hrows : ingestRows host event ((Query.first latestFirst (ofTenant event.tenantId s.logs)).map
        AuditLog.recordHash) id activityId now with
    | none => rfl
    | some rows =>
      obtain ⟨log, activity⟩ := rows
      obtain ⟨-, user, occurredAt, -, -, rfl, rfl⟩ := ingestRows_eq_some.mp hrows
      simp only [Option.bind_some, admits_of hnew]
      split_ifs
      · exact congrArg (fun t => some (_, t)) (insert_of rfl rfl)
      · rfl

theorem ingest_written {row : AuditLog} (h : ingest host event id activityId now s = some (row, s')) :
    Tables.WrittenBy event.tenantId s s' := by
  unfold ingest at h
  split at h
  · cases h
    exact .refl s
  · obtain ⟨⟨log, activity⟩, hrows, hinsert⟩ := Option.bind_eq_some_iff.mp h
    obtain ⟨-, user, occurredAt, -, -, rfl, rfl⟩ := ingestRows_eq_some.mp hrows
    dsimp only at hinsert
    split_ifs at hinsert
    cases hinsert
    exact ⟨writtenBy_snoc rfl, writtenBy_snoc rfl⟩

theorem search_of (q : Search) : search tenantId q (s.of tenantId) = search tenantId q s := by
  unfold search
  rw [ofTenant_of]

end Functions

/-! ### Operations -/

/-- A call of `AuditRepository`, in a transaction of its own. -/
inductive Operation where
  | ingest (event : AuditEvent) (id activityId : Uuid) (now : Instant)
  | search (tenantId : Uuid) (q : Search)

/-- The tenant the call is for. -/
def Operation.tenantId : Operation → Uuid
  | .ingest event _ _ _ => event.tenantId
  | .search tenantId _ => tenantId

inductive Reply where
  /-- `none` when it failed. -/
  | ingested (row : Option AuditLog)
  | found (rows : List AuditLog)

/-- The ids the call may draw are in no other tenant's rows. -/
def Operation.Fresh : Operation → Tables → Prop
  | .ingest event id activityId _, s => NewRows event.tenantId id activityId s
  | .search _ _, _ => True

section Run
variable (host : Host) {tenantId : Uuid} {op : Operation} {s s' : Tables}

def runOperation (op : Operation) (s : Tables) : Reply × Tables :=
  match op with
  | .ingest event id activityId now =>
    match ingest host event id activityId now s with
    | some (row, s) => (.ingested (some row), s)
    | none => (.ingested none, s)
  | .search tenantId q => (.found (search tenantId q s), s)

/-- A call needs no other rows than those of its tenant. -/
theorem runOperation_of (hfresh : op.Fresh s) :
    runOperation host op (s.of op.tenantId) =
      ((runOperation host op s).1, (runOperation host op s).2.of op.tenantId) := by
  cases op with
  | ingest event id activityId now =>
    simp only [runOperation, Operation.tenantId]
    rw [ingest_of hfresh]
    cases ingest host event id activityId now s <;> rfl
  | search tenantId q => exact congrArg (fun a => (Reply.found a, _)) (search_of q)

/-- A call writes to the rows of its tenant only. -/
theorem runOperation_written (op : Operation) (s : Tables) :
    Tables.WrittenBy op.tenantId s (runOperation host op s).2 := by
  cases op with
  | ingest event id activityId now =>
    unfold runOperation
    dsimp only
    split
    · rename_i h
      exact ingest_written h
    · exact .refl s
  | search => exact .refl s

theorem Operation.Fresh.before (h : op.Fresh s') (hwritten : Tables.WrittenBy tenantId s s') : op.Fresh s := by
  cases op with
  | ingest => exact ⟨h.log.before hwritten.logs, h.activity.before hwritten.activity⟩
  | search => exact trivial

theorem Operation.Fresh.after (h : op.Fresh s) (hwritten : Tables.WrittenBy op.tenantId s s') : op.Fresh s' := by
  cases op with
  | ingest => exact ⟨h.log.after hwritten.logs, h.activity.after hwritten.activity⟩
  | search => exact trivial

end Run
end Sentinel.Audit
