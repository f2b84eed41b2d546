import Sentinel.Audit.Dedup
import Sentinel.Common.RelayProofs

/-! From the outbox to the audit tables: the relays and the ingest transactions together.

A publish is one `POST /internal/events`: it starts an ingest transaction with the
record's event, and the publisher returns normally only on a 2xx answer, which is sent
after the transaction committed. Everything else can happen to it: the request fails
before or after the commit, the answer is lost, the worker crashes or comes back after its
lease, several transactions of one event run at once. Both machines share one clock.

The relays and the audit service are given one `internal_api_token`, so the check of
`X-Internal-Token` in `ingest_event` lets the posts of the relays pass and is left out. -/
namespace Sentinel.Delivery
open Library Library.Transition Common Audit

structure State where
  relay : Relay.State := {}
  audit : Ingest.State := {}
  /-- The ingest transaction behind a worker's publish. -/
  request : Nat → Option Nat := fun _ => none

inductive Action where
  | tick (time : Nat)
  | relay (a : Relay.Action)
  | post (w : Nat)
  | ingest (i : Nat) (m : Ingest.Move)

/-- The worker's request was answered with 2xx. -/
def answered (s : State) (w : Nat) : Bool :=
  match (s.request w).bind (s.audit.txns[·]?) with
  | some ⟨_, _, .committed _⟩ => true
  | _ => false

/-- Time is not the relay's to move, and a publisher returns only with an answer. -/
def allowed (s : State) : Relay.Action → Bool
  | .tick _ => false
  | .worker w .publishOk => answered s w
  | _ => true

/-- The request of a worker whose publish ends is nobody's any more. -/
def forget (a : Relay.Action) (request : Nat → Option Nat) : Nat → Option Nat :=
  match a with
  | .worker w st => if st.ends then Function.update request w none else request
  | _ => request

variable (host : Host)

def step : Action → State → Option State
  | .tick time, s =>
    some {s with
      relay := {s.relay with clock := s.relay.clock + time}
      audit := {s.audit with clock := s.audit.clock + time}}
  | .relay a, s =>
    if allowed s a then
      (Relay.step a s.relay).map fun relay => {s with relay := relay, request := forget a s.request}
    else none
  | .post w, s =>
    match s.relay.workers[w]?, s.request w with
    | some (.holding r), none =>
      (Ingest.step host (.start r.payload) s.audit).map fun audit =>
        {s with audit := audit, request := Function.update s.request w (some s.audit.txns.length)}
    | _, _ => none
  | .ingest i m, s => (Ingest.step host (.move i m) s.audit).map fun audit => {s with audit := audit}

def initial : State := {}

/-! ### What is delivered -/

/-- The `audit_logs` rows of an event. -/
def logRows (s : State) (event : AuditEvent) : Nat :=
  (s.audit.tables.logs.map AuditLog.uqAuditEvent).count (event.tenantId, event.id)

/-- The `activity_events` rows of an event. -/
def activityRows (s : State) (event : AuditEvent) : Nat :=
  (s.audit.tables.activity.map ActivityEvent.eventKey).count (event.tenantId, some event.id.str)

structure Delivered (s : State) : Prop where
  /-- No event takes effect twice. -/
  atMostOnce : ∀ row ∈ s.relay.rows,
    logRows s row.record.payload ≤ 1 ∧ activityRows s row.record.payload ≤ 1
  /-- A published record's event took effect. -/
  published : ∀ row ∈ s.relay.rows, row.record.status = .published →
    logRows s row.record.payload = 1 ∧ activityRows s row.record.payload = 1
  /-- Every other record is claimable again, or dead. -/
  retried : ∀ row ∈ s.relay.rows, row.record.status ≠ .published → row.record.status ≠ .dead →
    ∀ now, row.writtenAt + 300 * Datetime.second ≤ now → Claimable now row.record

/-! ### What holds in every state -/

/-- Some outbox record carries the event. -/
def Carried (s : State) (event : AuditEvent) : Prop :=
  ∃ row ∈ s.relay.rows, row.record.payload = event

/-- The event has an `audit_logs` row. -/
def Ingested (s : State) (event : AuditEvent) : Prop :=
  ∃ log ∈ s.audit.tables.logs, log.uqAuditEvent = (event.tenantId, event.id)

/-- The row comes from the event of some outbox record. -/
def Origin (s : State) (log : AuditLog) : Prop :=
  ∃ event, Carried s event ∧ log.uqAuditEvent = (event.tenantId, event.id) ∧
    event.time.timestamp host.localOffset = some log.occurredAt

structure Inv (s : State) : Prop where
  relay : Relay.Inv s.relay
  audit : Ingest.Inv host s.audit
  answers : ∀ (i : Nat) (t : Ingest.Txn), s.audit.txns[i]? = some t → Ingest.Answered s.audit t
  carried : ∀ (i : Nat) (t : Ingest.Txn), s.audit.txns[i]? = some t → Carried s t.event
  origin : ∀ log ∈ s.audit.tables.logs, Origin host s log
  deduplicated : Ingest.Deduplicated s.audit
  request : ∀ w i, s.request w = some i → ∃ r t, s.relay.workers[w]? = some (.holding r) ∧
    s.audit.txns[i]? = some t ∧ t.event = r.payload
  settling : ∀ (w : Nat) (old new : OutboxRecord), s.relay.workers[w]? = some (.settling old new) →
    new.status = .published → Ingested s old.payload
  published : ∀ row ∈ s.relay.rows, row.record.status = .published → Ingested s row.record.payload

variable {host}

theorem inv_initial : Inv host initial where
  relay := Relay.inv_initial
  audit := Ingest.inv_initial
  answers := by simp [initial]
  carried := by simp [initial]
  origin := by simp [initial]
  deduplicated := ⟨by simp [initial], by simp [initial]⟩
  request := by simp [initial]
  settling := by simp [initial]
  published := by simp [initial]

/-- Records with one event key carry one event. -/
theorem carried_unique {s : State} (h : Inv host s) {event event' : AuditEvent} (he : Carried s event)
    (he' : Carried s event') (hkey : (event.tenantId, event.id) = (event'.tenantId, event'.id)) :
    event = event' := by
  obtain ⟨row, hrow, rfl⟩ := he
  obtain ⟨row', hrow', rfl⟩ := he'
  obtain rfl : row = row' := List.inj_on_of_nodup_map h.relay.events hrow hrow' hkey
  rfl

/-- All deliveries of one event have one time, so the one that commits finds no row of it. -/
theorem no_row_of_inv {s : State} (h : Inv host s) {i : Nat} {t : Ingest.Txn} {log : AuditLog}
    {activity : ActivityEvent} (ht : s.audit.txns[i]? = some t) (hp : t.phase = .flushed log activity)
    {r : AuditLog} (hr : r ∈ s.audit.tables.logs) : r.uqAuditEvent ≠ (t.event.tenantId, t.event.id) := by
  intro hkey
  obtain ⟨event, hcarried, hevent, htime⟩ := h.origin r hr
  refine Ingest.occurredAt_ne h.audit ht hp hr hkey ?_
  rw [carried_unique h (h.carried i t ht) hcarried (hkey.symm.trans hevent)]
  exact htime

/-- A step of the audit side. -/
theorem Inv.audit_step {s : State} (h : Inv host s) {a : Ingest.Action} {audit : Ingest.State}
    (hs : Ingest.step host a s.audit = some audit)
    (hstart : ∀ event, a = .start event → Carried s event) : Inv host {s with audit := audit} := by
  have hinv : Ingest.Inv host audit := h.audit.step hs
  exact
    { relay := h.relay
      audit := hinv
      answers := Ingest.answered_step h.audit h.answers hs
      carried := by
        intro i t ht
        rcases Ingest.event_of_step hs ht with ⟨u, hu, hevent⟩ | hstarted
        · rw [hevent]
          exact h.carried i u hu
        · exact hstart _ hstarted
      origin := by
        intro log hlog
        rcases Ingest.log_of_step hs hlog with hlog | ⟨i, t, activity, ht, hp⟩
        · exact h.origin log hlog
        · obtain ⟨hkey, -, htime, -⟩ := h.audit.flushed ht hp
          exact ⟨t.event, h.carried i t ht, hkey, htime⟩
      deduplicated := (Ingest.deduplicated_step_iff h.audit hinv h.deduplicated hs).mpr
        fun _ _ _ _ _ ht hp _ hr => no_row_of_inv h ht hp hr
      request := by
        intro w i hw
        obtain ⟨r, t, hr, ht, hevent⟩ := h.request w i hw
        obtain ⟨t', ht', hevent'⟩ := Ingest.event_kept hs ht
        exact ⟨r, t', hr, ht', hevent'.trans hevent⟩
      settling := by
        intro w old new hw hpublished
        obtain ⟨log, hlog, hkey⟩ := h.settling w old new hw hpublished
        exact ⟨log, Ingest.logs_kept hs hlog, hkey⟩
      published := by
        intro row hrow hpublished
        obtain ⟨log, hlog, hkey⟩ := h.published row hrow hpublished
        exact ⟨log, Ingest.logs_kept hs hlog, hkey⟩ }

/-- The event of an answered request is ingested. -/
theorem ingested_of_answered {s : State} (h : Inv host s) {w : Nat} {r : OutboxRecord}
    (hanswered : answered s w) (hw : s.relay.workers[w]? = some (.holding r)) :
    Ingested s r.payload := by
  unfold answered at hanswered
  split at hanswered
  · rename_i event now row hrequest
    obtain ⟨i, hi, ht⟩ := Option.bind_eq_some_iff.mp hrequest
    obtain ⟨r', t, hw', ht', hevent⟩ := h.request w i hi
    obtain rfl := Option.some.inj (ht.symm.trans ht')
    cases hw.symm.trans hw'
    have hrow := h.answers i _ ht
    exact ⟨row, hrow.1, by rw [hrow.2, hevent]⟩
  · cases hanswered

/-- A step of the relays. -/
theorem Inv.relay_step {s : State} (h : Inv host s) {a : Relay.Action} {relay : Relay.State}
    (hallowed : allowed s a) (hs : Relay.step a s.relay = some relay) :
    Inv host {s with relay := relay, request := forget a s.request} := by
  have carried : ∀ {event}, Carried s event →
      Carried {s with relay := relay, request := forget a s.request} event := by
    rintro event ⟨row, hrow, rfl⟩
    exact Relay.row_kept hs hrow
  exact
    { relay := h.relay.step hs
      audit := h.audit
      answers := h.answers
      carried := fun i t ht => carried (h.carried i t ht)
      origin := by
        intro log hlog
        obtain ⟨event, hcarried, hlog⟩ := h.origin log hlog
        exact ⟨event, carried hcarried, hlog⟩
      deduplicated := ⟨h.deduplicated.logs, h.deduplicated.activity⟩
      request := by
        intro w i hw
        have hkept : s.request w = some i ∧ ∀ st, a = .worker w st → st.ends = false := by
          cases a with
          | worker v st =>
            simp only [forget] at hw
            split_ifs at hw with hends
            · by_cases hvw : w = v
              · simp [hvw] at hw
              · rw [Function.update_of_ne hvw] at hw
                exact ⟨hw, fun st' heq => absurd (Relay.Action.worker.inj heq).1.symm hvw⟩
            · refine ⟨hw, ?_⟩
              rintro st' ⟨⟩
              simpa using hends
          | _ => exact ⟨hw, by simp⟩
        obtain ⟨r, t, hr, ht⟩ := h.request w i hkept.1
        exact ⟨r, t, Relay.holding_step hs hr hkept.2, ht⟩
      settling := by
        intro w old new hw hpublished
        rcases Relay.settling_step hs hw hpublished with hold | ⟨rfl, hholding⟩
        · exact h.settling w old new hold hpublished
        · exact ingested_of_answered h hallowed hholding
      published := by
        intro row hrow hpublished
        rcases Relay.published_step h.relay hs hrow hpublished with
          ⟨row', hrow', hpayload, hstatus⟩ | ⟨w, old, new, hw, hstatus, hpayload⟩
        · rw [← hpayload]
          exact h.published row' hrow' hstatus
        · rw [← hpayload]
          exact h.settling w old new hw hstatus }

/-- **Every step keeps the invariant.** -/
theorem Inv.step {a : Action} {s s' : State} (h : Inv host s) (hs : step host a s = some s') :
    Inv host s' := by
  cases a with
  | tick time =>
    obtain rfl := Option.some.inj hs
    have hrelay : Relay.step (.tick time) s.relay =
      some {s.relay with clock := s.relay.clock + time} := rfl
    have haudit : Ingest.step host (.tick time) s.audit =
      some {s.audit with clock := s.audit.clock + time} := rfl
    exact { h.audit_step haudit (by rintro event ⟨⟩) with relay := h.relay.step hrelay }
  | relay a =>
    simp only [Delivery.step] at hs
    split_ifs at hs with hallowed
    obtain ⟨relay, hrelay, rfl⟩ := Option.map_eq_some_iff.mp hs
    exact h.relay_step hallowed hrelay
  | post w =>
    simp only [Delivery.step] at hs
    split at hs
    · rename_i r hw hnone
      obtain ⟨audit, haudit, rfl⟩ := Option.map_eq_some_iff.mp hs
      obtain ⟨⟨row, hrow, -, hpayload⟩, -⟩ := h.relay.fits w _ hw
      have hstep := h.audit_step haudit (by rintro event ⟨⟩; exact ⟨row, hrow, hpayload⟩)
      refine { hstep with request := ?_ }
      intro v i hv
      simp only at hv
      by_cases hvw : v = w
      · subst hvw
        rw [Function.update_self] at hv
        obtain rfl := Option.some.inj hv
        obtain rfl := Option.some.inj haudit
        exact ⟨r, ⟨r.payload, s.audit.clock, .begun⟩, hw, by simp, rfl⟩
      · rw [Function.update_of_ne hvw] at hv
        exact hstep.request v i hv
    · cases hs
  | ingest i m =>
    obtain ⟨audit, haudit, rfl⟩ := Option.map_eq_some_iff.mp hs
    exact h.audit_step haudit (by rintro event ⟨⟩)

/-! ### Exactly once -/

theorem activityRows_eq {s : State} (h : Inv host s) (event : AuditEvent) :
    activityRows s event = logRows s event := by
  have hpaired : s.audit.tables.activity.map ActivityEvent.eventKey =
      (s.audit.tables.logs.map AuditLog.uqAuditEvent).map fun key => (key.1, some key.2.str) := by
    rw [h.audit.paired, List.map_map]
    rfl
  rw [activityRows, logRows, hpaired]
  exact List.count_map_of_injective _ _ Ingest.eventText_injective (event.tenantId, event.id)

theorem delivered_of_inv {s : State} (h : Inv host s) : Delivered s := by
  have once : ∀ event, logRows s event ≤ 1 := fun event =>
    List.nodup_iff_count_le_one.mp h.deduplicated.logs _
  refine ⟨?_, ?_, ?_⟩
  · intro row _
    rw [activityRows_eq h]
    exact ⟨once _, once _⟩
  · intro row hrow hpublished
    obtain ⟨log, hlog, hkey⟩ := h.published row hrow hpublished
    have hsome : 0 < logRows s row.record.payload :=
      List.count_pos_iff.mpr (List.mem_map.mpr ⟨log, hlog, hkey⟩)
    have hone : logRows s row.record.payload = 1 := Nat.le_antisymm (once _) hsome
    rw [activityRows_eq h]
    exact ⟨hone, hone⟩
  · intro row hrow hpublished hdead now hnow
    refine ⟨?_, le_trans (h.relay.bounded row hrow).1 hnow⟩
    cases hstatus : row.record.status with
    | pending => exact .inl rfl
    | publishing => exact .inr rfl
    | published => exact absurd hstatus hpublished
    | dead => exact absurd hstatus hdead

/-- **Delivery is exactly once and loses nothing**: all along every run, no event of the
outbox has two rows in a table, an event published has one in each, and a record neither
published nor dead is claimable at the latest 300 seconds after it was last written. -/
theorem delivery_exactly_once (actions : List Action) :
    Always (step host) Delivered actions initial :=
  (Always.of_invariant actions inv_initial fun _ _ _ hinv hs => hinv.step hs).mono
    fun _ => delivered_of_inv

end Sentinel.Delivery
