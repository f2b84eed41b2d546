import Sentinel.Audit.Repository

/-! Verifying a stored row: the canonical object rebuilt from its columns.

The hash is taken over the event in memory. The row keeps the instant of `time` and the
`jsonb` value of `data`, and these do not always print as the event did:
`reverifies_iff` says for which events they do. -/
namespace Sentinel.Audit
open Library Library.Json Common

/-- The canonical object of `ingest`, filled from the columns of a stored row. -/
def AuditLog.canonical (r : AuditLog) : Canonical where
  eventId := r.eventId
  tenantId := r.tenantId
  occurredAt := String.ofList (Datetime.utc r.occurredAt).isoformat
  actorType := r.actorType
  actorId := r.actorId
  action := r.action
  entityType := r.entityType
  entityId := r.entityId
  outcome := r.outcome
  source := r.sourceService
  correlationId := r.correlationId
  data := r.metadata
  previousHash := r.previousHash

/-- The stored record hash is the hash of the stored columns. -/
def AuditLog.Reverifies (r : AuditLog) : Prop := r.canonical.recordHash = r.recordHash

/-- What the row keeps agrees with what was hashed when the time prints the same and the
data came back the same. -/
theorem agrees_stored_iff (event : AuditEvent) (previousHash : Option String) (id : Uuid)
    (t : Timestamp) (now : Instant) :
    (canonical event previousHash).Agrees (auditLog event previousHash id t now).canonical ↔
      (Datetime.utc t).isoformat = event.time.isoformat ∧ Same event.data.json event.data.reload.json := by
  refine ⟨?_, ?_⟩
  · intro h
    exact ⟨(String.ofList_injective h.occurredAt).symm, h.data⟩
  · rintro ⟨htime, hdata⟩
    exact ⟨rfl, rfl, (congrArg String.ofList htime).symm, rfl, rfl, rfl, rfl, rfl, rfl, rfl, rfl,
      hdata, rfl⟩

/-- **A stored row reverifies** exactly when its event came with offset zero and without a
negative zero or a double from `1e16` on. -/
theorem reverifies_iff {host : Host} {event : AuditEvent} {previousHash : Option String}
    {id activityId : Uuid} {now : Instant} {log : AuditLog} {activity : ActivityEvent} {offset : Int}
    (haware : event.time.offset = some offset)
    (hrow : ingestRows host event previousHash id activityId now = some (log, activity))
    (hfree : Sha256.CollisionFree {(canonical event previousHash).text, log.canonical.text}) :
    log.Reverifies ↔ offset = 0 ∧ Kept event.data.json := by
  obtain ⟨-, user, t, -, ht, rfl, -⟩ := ingestRows_eq_some.mp hrow
  have hhash : (auditLog event previousHash id t now).Reverifies ↔
      (canonical event previousHash).text = (auditLog event previousHash id t now).canonical.text :=
    ⟨fun h => hfree (by simp) (by simp) h.symm, fun h => (congrArg Sha256.hexdigest h).symm⟩
  rw [hhash, Canonical.text_eq_iff, agrees_stored_iff, Datetime.isoformat_utc_iff haware ht,
    Object.reload_json, same_reload_iff event.data.wellFormed_json]

/-- An event that came with offset `+01:00`. -/
def withOffset : AuditEvent :=
  {syncRequested 1 0 with time := ⟨Datetime.hour, some Datetime.hour, by decide, by decide⟩}

/-- An event with the amount `1e+16`. -/
def withAmount : AuditEvent :=
  {syncRequested 1 0 with
    data := ⟨[("amount", .float (.finite (.powerOfTen 16)))], by simp [WellFormed]⟩}

theorem ingestRows_withOffset : ingestRows sampleHost withOffset none 1 2 0 =
    some (auditLog withOffset none 1 0 0, activityEvent withOffset 2 (some 9) 0) :=
  ingestRows_eq_some.mpr
    ⟨by decide +kernel, some 9, 0, by decide +kernel, by decide +kernel, rfl, rfl⟩

theorem ingestRows_withAmount : ingestRows sampleHost withAmount none 1 2 0 =
    some (auditLog withAmount none 1 0 0, activityEvent withAmount 2 (some 9) 0) :=
  ingestRows_eq_some.mpr
    ⟨by decide +kernel, some 9, 0, by decide +kernel, by decide +kernel, rfl, rfl⟩

theorem reverifies_iff_withOffset :
    (auditLog withOffset none 1 0 0).Reverifies ↔
      (Datetime.hour : Int) = 0 ∧ Kept withOffset.data.json :=
  reverifies_iff rfl ingestRows_withOffset (Sha256.collisionFree_pair (by decide +kernel))

/-- Both events are taken, and neither row reproduces its record hash. -/
theorem not_reverified :
    (∃ log activity, ingestRows sampleHost withOffset none 1 2 0 = some (log, activity) ∧
      ¬ log.Reverifies) ∧
    ∃ log activity, ingestRows sampleHost withAmount none 1 2 0 = some (log, activity) ∧
      ¬ log.Reverifies := by
  refine ⟨⟨_, _, ingestRows_withOffset, ?_⟩, ⟨_, _, ingestRows_withAmount, ?_⟩⟩
  all_goals
    unfold AuditLog.Reverifies
    decide +kernel

end Sentinel.Audit
