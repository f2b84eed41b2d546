import Sentinel.Audit.Repository
import Sentinel.Library.Transition

/-! Ingest transactions side by side, under READ COMMITTED.

`POST /internal/events` runs `AuditRepository.ingest` in a `UnitOfWork`. Each query of it
is one move here: the duplicate check, the advisory lock on `hashtext(tenant_id)`, the
read of the predecessor, the flush of the two rows, the commit. A query sees the rows
committed when it runs; the transaction began, and fixed its `now()`, before the first
of them. The lock is held to the end of the transaction. A flush waits for (and here is
refused by) another transaction that flushed a row with the same key, and fails on a
committed one. A transaction can be rolled back at any point.

`hashed` is not in the database: it lists the texts given to SHA-256. -/
namespace Sentinel.Audit.Ingest
open Library Library.Transition Common

inductive Phase where
  | begun
  /-- The duplicate check found a row, which is what `ingest` returns. -/
  | seen (row : AuditLog)
  | unseen
  | locked
  | chosen (previousHash : Option String)
  | flushed (log : AuditLog) (activity : ActivityEvent)
  | committed (row : AuditLog)
  | aborted

/-- The transaction holds the advisory lock. -/
def Phase.holds : Phase → Bool
  | .locked | .chosen _ | .flushed _ _ => true
  | _ => false

def Phase.ended : Phase → Bool
  | .committed _ | .aborted => true
  | _ => false

structure Txn where
  event : AuditEvent
  /-- `now()`, the start of the transaction. -/
  now : Instant
  phase : Phase

structure State where
  clock : Instant := 0
  tables : Tables := {}
  txns : List Txn := []
  hashed : List (List Char) := []

inductive Move where
  | check
  | lock
  | choose
  | insert (id activityId : Uuid)
  | commit
  | rollback

inductive Action where
  | tick (time : Nat)
  | start (event : AuditEvent)
  | move (i : Nat) (m : Move)

variable (host : Host)

def lockKey (event : AuditEvent) : Int := host.hashtext event.tenantId.str

/-- No transaction holds the lock `event` needs. -/
def LockFree (s : State) (event : AuditEvent) : Prop :=
  ∀ t ∈ s.txns, t.phase.holds → lockKey host t.event ≠ lockKey host event

instance (s : State) (event : AuditEvent) : Decidable (LockFree host s event) := by
  unfold LockFree; infer_instance

/-- Two flushed pairs of rows share no key. -/
def Apart (log : AuditLog) (activity : ActivityEvent) : Phase → Prop
  | .flushed log' activity' =>
    log'.primaryKey ≠ log.primaryKey ∧ log'.uniqueKey ≠ log.uniqueKey ∧ activity'.id ≠ activity.id
  | _ => True

instance (log : AuditLog) (activity : ActivityEvent) : DecidablePred (Apart log activity) := fun p => by
  unfold Apart; split <;> infer_instance

/-- The hash a row chained now would name. -/
def State.tip (s : State) (tenantId : Uuid) : Option String :=
  (previous s.tables.logs tenantId).map AuditLog.recordHash

def State.advance (s : State) (i : Nat) (t : Txn) (phase : Phase) : State :=
  {s with txns := s.txns.set i {t with phase := phase}}

/-- One query of transaction `i`. -/
def move (m : Move) (i : Nat) (t : Txn) (s : State) : Option State :=
  match m, t.phase with
  | .check, .begun =>
    match existing s.tables.logs t.event.tenantId t.event.id with
    | some row => some (s.advance i t (.seen row))
    | none => some (s.advance i t .unseen)
  | .lock, .unseen => if LockFree host s t.event then some (s.advance i t .locked) else none
  | .choose, .locked => some (s.advance i t (.chosen (s.tip t.event.tenantId)))
  | .insert id activityId, .chosen previousHash =>
    (ingestRows host t.event previousHash id activityId t.now).bind fun (log, activity) =>
      if Admits s.tables log activity ∧ ∀ u ∈ s.txns, Apart log activity u.phase then
        some {s.advance i t (.flushed log activity) with
          hashed := (canonical t.event previousHash).text :: s.hashed}
      else none
  | .commit, .flushed log activity =>
    some {s.advance i t (.committed log) with tables := s.tables.insert log activity}
  | .commit, .seen row => some (s.advance i t (.committed row))
  | .rollback, phase => if phase.ended then none else some (s.advance i t .aborted)
  | _, _ => none

def step : Action → State → Option State
  | .tick time, s => some {s with clock := s.clock + time}
  | .start event, s => some {s with txns := s.txns ++ [⟨event, s.clock, .begun⟩]}
  | .move i m, s => s.txns[i]?.bind fun t => move host m i t s

def initial : State := {}

/-! ### What a step can do -/

/-- The steps, each with the state it leads to. -/
inductive Next (s : State) : Action → State → Prop
  | tick (time : Nat) : Next s (.tick time) {s with clock := s.clock + time}
  | start (event : AuditEvent) :
      Next s (.start event) {s with txns := s.txns ++ [⟨event, s.clock, .begun⟩]}
  | seen {i : Nat} {t : Txn} {row : AuditLog} (ht : s.txns[i]? = some t) (hp : t.phase = .begun)
      (hrow : existing s.tables.logs t.event.tenantId t.event.id = some row) :
      Next s (.move i .check) (s.advance i t (.seen row))
  | unseen {i : Nat} {t : Txn} (ht : s.txns[i]? = some t) (hp : t.phase = .begun)
      (hnone : existing s.tables.logs t.event.tenantId t.event.id = none) :
      Next s (.move i .check) (s.advance i t .unseen)
  | lock {i : Nat} {t : Txn} (ht : s.txns[i]? = some t) (hp : t.phase = .unseen)
      (hfree : LockFree host s t.event) : Next s (.move i .lock) (s.advance i t .locked)
  | choose {i : Nat} {t : Txn} (ht : s.txns[i]? = some t) (hp : t.phase = .locked) :
      Next s (.move i .choose) (s.advance i t (.chosen (s.tip t.event.tenantId)))
  | insert {i : Nat} {t : Txn} {previousHash : Option String} {id activityId : Uuid} {log : AuditLog}
      {activity : ActivityEvent} (ht : s.txns[i]? = some t) (hp : t.phase = .chosen previousHash)
      (hrows : ingestRows host t.event previousHash id activityId t.now = some (log, activity))
      (hadmits : Admits s.tables log activity) (hapart : ∀ u ∈ s.txns, Apart log activity u.phase) :
      Next s (.move i (.insert id activityId))
        {s.advance i t (.flushed log activity) with
          hashed := (canonical t.event previousHash).text :: s.hashed}
  | commit {i : Nat} {t : Txn} {log : AuditLog} {activity : ActivityEvent}
      (ht : s.txns[i]? = some t) (hp : t.phase = .flushed log activity) :
      Next s (.move i .commit)
        {s.advance i t (.committed log) with tables := s.tables.insert log activity}
  | confirm {i : Nat} {t : Txn} {row : AuditLog} (ht : s.txns[i]? = some t)
      (hp : t.phase = .seen row) : Next s (.move i .commit) (s.advance i t (.committed row))
  | rollback {i : Nat} {t : Txn} (ht : s.txns[i]? = some t) (hp : t.phase.ended = false) :
      Next s (.move i .rollback) (s.advance i t .aborted)

variable {host}

theorem next_of_step {a : Action} {s s' : State} (h : step host a s = some s') : Next host s a s' := by
  cases a with
  | tick time =>
    obtain rfl := Option.some.inj h
    exact .tick time
  | start event =>
    obtain rfl := Option.some.inj h
    exact .start event
  | move i m =>
    obtain ⟨t, ht, hmove⟩ := Option.bind_eq_some_iff.mp h
    unfold move at hmove
    split at hmove
    · rename_i hp
      split at hmove <;> obtain rfl := Option.some.inj hmove
      · exact .seen ht hp ‹_›
      · exact .unseen ht hp ‹_›
    · split_ifs at hmove with hfree
      obtain rfl := Option.some.inj hmove
      exact .lock ht ‹_› hfree
    · obtain rfl := Option.some.inj hmove
      exact .choose ht ‹_›
    · obtain ⟨⟨log, activity⟩, hrows, hmove⟩ := Option.bind_eq_some_iff.mp hmove
      simp only at hmove
      split_ifs at hmove with hok
      obtain rfl := Option.some.inj hmove
      exact .insert ht ‹_› hrows hok.1 hok.2
    · obtain rfl := Option.some.inj hmove
      exact .commit ht ‹_›
    · obtain rfl := Option.some.inj hmove
      exact .confirm ht ‹_›
    · split_ifs at hmove with hended
      obtain rfl := Option.some.inj hmove
      exact .rollback ht (by simpa using hended)
    · simp at hmove

end Sentinel.Audit.Ingest
