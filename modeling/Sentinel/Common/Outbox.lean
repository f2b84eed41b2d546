import Sentinel.Common.Events
import Sentinel.Library.Query

/-! The transactional outbox: `OutboxRecord`, `claim_outbox`, and the two outcomes the relay
writes after a delivery.

The session keeps a record in memory from the claim to the outcome, and an `UPDATE` sends
only the attributes whose value changed in memory (`write`); what others have committed to
the remaining columns stays. -/
namespace Sentinel.Common
open Library

inductive Status where
  | pending
  | publishing
  | published
  | dead
  deriving DecidableEq

/-- No delivery follows. -/
def Status.final : Status → Bool
  | .published | .dead => true
  | _ => false

structure OutboxRecord where
  id : Uuid
  tenantId : Uuid
  destination : String
  eventType : String
  payload : AuditEvent
  status : Status
  attempts : Nat
  availableAt : Instant
  createdAt : Instant
  publishedAt : Option Instant
  lastError : Option String

/-- `enqueue_audit`: the row of an event, with the defaults of the class. -/
def enqueueAudit (event : AuditEvent) (id : Uuid) (availableAt createdAt : Instant) :
    OutboxRecord where
  id := id
  tenantId := event.tenantId
  destination := "audit"
  eventType := event.type
  payload := event
  status := .pending
  attempts := 0
  availableAt := availableAt
  createdAt := createdAt
  publishedAt := none
  lastError := none

/-- The filter of `claim_outbox`. -/
def Claimable (now : Instant) (r : OutboxRecord) : Prop :=
  (r.status = .pending ∨ r.status = .publishing) ∧ r.availableAt ≤ now

instance (now : Instant) (r : OutboxRecord) : Decidable (Claimable now r) := by
  unfold Claimable; infer_instance

/-- `timedelta(minutes=5)`. -/
def lease : Nat := 5 * Datetime.minute

/-- What `claim_outbox` assigns. -/
def claim (now : Instant) (r : OutboxRecord) : OutboxRecord :=
  {r with status := .publishing, attempts := r.attempts + 1, availableAt := now + lease}

/-- What the relay assigns after the publisher returned. -/
def succeed (now : Instant) (r : OutboxRecord) : OutboxRecord :=
  {r with status := .published, publishedAt := some now, lastError := none}

/-- `timedelta(seconds=min(300, 2 ** min(attempts, 8)))`. -/
def backoff (attempts : Nat) : Nat := min 300 (2 ^ min attempts 8) * Datetime.second

/-- What the relay assigns after the publisher raised. -/
def fail (now : Instant) (error : String) (r : OutboxRecord) : OutboxRecord :=
  {r with
    status := if r.attempts < 20 then .pending else .dead
    availableAt := now + backoff r.attempts
    lastError := some (String.ofList (error.toList.take 2000))}

/-- The row after an `UPDATE` of a record that was loaded as `old` and is now `new`. -/
def write (old new row : OutboxRecord) : OutboxRecord :=
  {row with
    status := if new.status = old.status then row.status else new.status
    attempts := if new.attempts = old.attempts then row.attempts else new.attempts
    availableAt := if new.availableAt = old.availableAt then row.availableAt else new.availableAt
    publishedAt := if new.publishedAt = old.publishedAt then row.publishedAt else new.publishedAt
    lastError := if new.lastError = old.lastError then row.lastError else new.lastError}

/-- A row that nobody else wrote takes every value assigned. -/
theorem write_claim (now : Instant) (r : OutboxRecord) : write r (claim now r) r = claim now r := by
  cases r
  simp only [write, claim, OutboxRecord.mk.injEq, true_and]
  refine ⟨?_, ?_, ?_, ?_, ?_⟩ <;> split_ifs <;> simp_all

theorem backoff_le (attempts : Nat) : backoff attempts ≤ lease := by
  have : min 300 (2 ^ min attempts 8) ≤ 300 := Nat.min_le_left _ _
  simp only [backoff, lease, Datetime.minute, Datetime.second]
  omega

/-- An outcome moves the next attempt at most a lease ahead. -/
theorem availableAt_fail_le (now : Instant) (error : String) (r : OutboxRecord) :
    (fail now error r).availableAt ≤ now + lease :=
  Nat.add_le_add_left (backoff_le r.attempts) now

end Sentinel.Common
