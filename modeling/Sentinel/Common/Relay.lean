import Sentinel.Common.Outbox
import Sentinel.Library.Transition

/-! Any number of outbox relays over one table.

A worker repeats the loop of `outbox_worker.run`: read the clock and select a record for
update (`claim_outbox`), commit the claim, publish, assign the outcome, commit it. The row
lock of the claim ends with its commit, so a publish runs without one, for as long as it
takes. A worker can crash anywhere, which rolls back the transaction it has open; it (or
its replacement) starts over.

Two components of a row are not in the database and no step reads them: the time of the
last committed write, and the lease last granted, with its worker, until that worker
commits an outcome. -/
namespace Sentinel.Common.Relay
open Library Library.Transition

structure Row where
  record : OutboxRecord
  writtenAt : Instant
  lease : Option (Nat × Instant)

inductive Worker where
  | idle
  /-- `claim_outbox` has read the clock. -/
  | claiming (now : Instant)
  /-- The row is locked; `new` is to be committed. -/
  | selected (old new : OutboxRecord)
  /-- The claim is committed; the publish is under way. -/
  | holding (record : OutboxRecord)
  /-- The outcome is assigned but not committed. -/
  | settling (old new : OutboxRecord)

structure State where
  clock : Instant := 0
  rows : List Row := []
  workers : List Worker := []

inductive Step where
  | readClock
  | select (skipped : List Uuid)
  | commitClaim
  | publishOk
  | publishError (error : String)
  | commitOutcome
  | crash

inductive Action where
  | tick (time : Nat)
  | boot
  | enqueue (event : AuditEvent) (id : Uuid) (availableAt createdAt : Instant)
  | worker (w : Nat) (step : Step)

/-- The worker holds the row lock of the record. -/
def Worker.Locks (id : Uuid) : Worker → Prop
  | .selected old _ => old.id = id
  | _ => False

instance (id : Uuid) : DecidablePred (Worker.Locks id) := fun w => by
  unfold Worker.Locks; split <;> infer_instance

def Locked (s : State) (id : Uuid) : Prop := ∃ w ∈ s.workers, w.Locks id

instance (s : State) (id : Uuid) : Decidable (Locked s id) := by unfold Locked; infer_instance

/-- The record `claim_outbox` selects: the oldest claimable one without a lock. `skipped`
are rows another `UPDATE` has locked at this moment. -/
def select (s : State) (now : Instant) (skipped : List Uuid) : Option OutboxRecord :=
  Query.first (fun r q : OutboxRecord => r.createdAt ≤ q.createdAt)
    ((s.rows.map Row.record).filter fun r =>
      Claimable now r ∧ ¬ Locked s r.id ∧ r.id ∉ skipped)

def State.set (s : State) (w : Nat) (worker : Worker) : State :=
  {s with workers := s.workers.set w worker}

/-- `UPDATE … WHERE id = …`. -/
def State.update (s : State) (id : Uuid) (f : Row → Row) : State :=
  {s with rows := s.rows.map fun row => if row.record.id = id then f row else row}

/-- The committed claim of worker `w`. -/
def granted (now : Instant) (w : Nat) (old new : OutboxRecord) (row : Row) : Row :=
  ⟨write old new row.record, now, some (w, new.availableAt)⟩

/-- The committed outcome of worker `w`. -/
def settled (now : Instant) (w : Nat) (old new : OutboxRecord) (row : Row) : Row :=
  ⟨write old new row.record, now, row.lease.filter fun l => l.1 ≠ w⟩

/-- One step of worker `w`. -/
def act (a : Step) (w : Nat) (worker : Worker) (s : State) : Option State :=
  match a, worker with
  | .readClock, .idle => some (s.set w (.claiming s.clock))
  | .select skipped, .claiming now =>
    match select s now skipped with
    | some r => some (s.set w (.selected r (claim now r)))
    | none => some (s.set w .idle)
  | .commitClaim, .selected old new =>
    some ((s.set w (.holding new)).update old.id (granted s.clock w old new))
  | .publishOk, .holding r => some (s.set w (.settling r (succeed s.clock r)))
  | .publishError error, .holding r => some (s.set w (.settling r (fail s.clock error r)))
  | .commitOutcome, .settling old new =>
    if Locked s old.id then none
    else some ((s.set w .idle).update old.id (settled s.clock w old new))
  | .crash, _ => some (s.set w .idle)
  | _, _ => none

/-- The record and the event of a new row are new: both ids come from `uuid4()`. -/
def Fresh (s : State) (event : AuditEvent) (id : Uuid) : Prop :=
  ∀ row ∈ s.rows, row.record.id ≠ id ∧
    (row.record.payload.tenantId, row.record.payload.id) ≠ (event.tenantId, event.id)

instance (s : State) (event : AuditEvent) (id : Uuid) : Decidable (Fresh s event id) := by
  unfold Fresh; infer_instance

def step : Action → State → Option State
  | .tick time, s => some {s with clock := s.clock + time}
  | .boot, s => some {s with workers := s.workers ++ [.idle]}
  | .enqueue event id availableAt createdAt, s =>
    if Fresh s event id ∧ availableAt ≤ s.clock ∧ createdAt ≤ s.clock then
      some {s with rows := s.rows ++ [⟨enqueueAudit event id availableAt createdAt, s.clock, none⟩]}
    else none
  | .worker w a, s => s.workers[w]?.bind fun worker => act a w worker s

def initial : State := {}

/-! ### What a step can do -/

/-- The steps, each with the state it leads to. -/
inductive Next (s : State) : Action → State → Prop
  | tick (time : Nat) : Next s (.tick time) {s with clock := s.clock + time}
  | boot : Next s .boot {s with workers := s.workers ++ [.idle]}
  | enqueue {event : AuditEvent} {id : Uuid} {availableAt createdAt : Instant}
      (hfresh : Fresh s event id) (havailable : availableAt ≤ s.clock) (hcreated : createdAt ≤ s.clock) :
      Next s (.enqueue event id availableAt createdAt)
        {s with rows := s.rows ++ [⟨enqueueAudit event id availableAt createdAt, s.clock, none⟩]}
  | readClock {w : Nat} (hw : s.workers[w]? = some .idle) :
      Next s (.worker w .readClock) (s.set w (.claiming s.clock))
  | select {w : Nat} {now : Instant} {skipped : List Uuid} {r : OutboxRecord}
      (hw : s.workers[w]? = some (.claiming now)) (hr : select s now skipped = some r) :
      Next s (.worker w (.select skipped)) (s.set w (.selected r (claim now r)))
  | selectNone {w : Nat} {now : Instant} {skipped : List Uuid}
      (hw : s.workers[w]? = some (.claiming now)) (hr : select s now skipped = none) :
      Next s (.worker w (.select skipped)) (s.set w .idle)
  | commitClaim {w : Nat} {old new : OutboxRecord} (hw : s.workers[w]? = some (.selected old new)) :
      Next s (.worker w .commitClaim)
        ((s.set w (.holding new)).update old.id (granted s.clock w old new))
  | publishOk {w : Nat} {r : OutboxRecord} (hw : s.workers[w]? = some (.holding r)) :
      Next s (.worker w .publishOk) (s.set w (.settling r (succeed s.clock r)))
  | publishError {w : Nat} {r : OutboxRecord} (error : String)
      (hw : s.workers[w]? = some (.holding r)) :
      Next s (.worker w (.publishError error)) (s.set w (.settling r (fail s.clock error r)))
  | commitOutcome {w : Nat} {old new : OutboxRecord} (hw : s.workers[w]? = some (.settling old new))
      (hlocked : ¬ Locked s old.id) :
      Next s (.worker w .commitOutcome)
        ((s.set w .idle).update old.id (settled s.clock w old new))
  | crash {w : Nat} {worker : Worker} (hw : s.workers[w]? = some worker) :
      Next s (.worker w .crash) (s.set w .idle)

theorem next_of_step {a : Action} {s s' : State} (h : step a s = some s') : Next s a s' := by
  cases a with
  | tick time =>
    obtain rfl := Option.some.inj h
    exact .tick time
  | boot =>
    obtain rfl := Option.some.inj h
    exact .boot
  | enqueue event id availableAt createdAt =>
    simp only [step] at h
    split_ifs at h with hok
    obtain rfl := Option.some.inj h
    exact .enqueue hok.1 hok.2.1 hok.2.2
  | worker w a =>
    obtain ⟨worker, hw, hact⟩ := Option.bind_eq_some_iff.mp h
    unfold act at hact
    split at hact
    · obtain rfl := Option.some.inj hact
      exact .readClock hw
    · split at hact <;> obtain rfl := Option.some.inj hact
      · exact .select hw ‹_›
      · exact .selectNone hw ‹_›
    · obtain rfl := Option.some.inj hact
      exact .commitClaim hw
    · obtain rfl := Option.some.inj hact
      exact .publishOk hw
    · obtain rfl := Option.some.inj hact
      exact .publishError _ hw
    · split_ifs at hact with hlocked
      obtain rfl := Option.some.inj hact
      exact .commitOutcome hw hlocked
    · obtain rfl := Option.some.inj hact
      exact .crash hw
    · simp at hact

end Sentinel.Common.Relay
