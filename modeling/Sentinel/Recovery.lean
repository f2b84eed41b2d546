import Sentinel.Delivery

/-! The way out of every state of the delivery.

Relays crash and leave leases behind, ingest transactions hang on to their lock. Once the
relays have crashed and the open transactions were rolled back, nobody holds anything but
leases; a lease later a single relay publishes what there is, oldest first, one record
after the other, if nothing else fails. -/
namespace Sentinel.Recovery
open Library Library.Transition Common Audit Delivery

/-- The audit service can take the event. -/
def Takes (host : Host) (event : AuditEvent) : Prop :=
  columnsTake event ∧ (userId host event).isSome ∧ (event.time.timestamp host.localOffset).isSome

/-! ### An ingest transaction with nobody else -/

section Ingest
variable {host : Host} {s : Ingest.State} {event : AuditEvent}

theorem exists_fresh (ids : List Uuid) (h : ids.length < 2 ^ 128) : ∃ id : Uuid, id ∉ ids := by
  have hcard : (ids.map BitVec.toNat).toFinset.card < (Finset.range (2 ^ 128)).card := by
    rw [Finset.card_range]
    exact Nat.lt_of_le_of_lt (List.toFinset_card_le _) (by rwa [List.length_map])
  obtain ⟨n, hn, hnot⟩ := Finset.exists_mem_notMem_of_card_lt_card hcard
  refine ⟨BitVec.ofNat 128 n, fun hmem => hnot (List.mem_toFinset.mpr ?_)⟩
  have htoNat : (BitVec.ofNat 128 n).toNat = n := by
    rw [BitVec.toNat_ofNat, Nat.mod_eq_of_lt (Finset.mem_range.mp hn)]
  exact List.mem_map.mpr ⟨_, hmem, htoNat⟩

theorem length_le_of_nodup {ids : List Uuid} (h : ids.Nodup) : ids.length ≤ 2 ^ 128 := by
  have hnat : (ids.map BitVec.toNat).Nodup := h.map fun _ _ => BitVec.eq_of_toNat_eq
  have hsub : ids.map BitVec.toNat ⊆ List.range (2 ^ 128) := by
    intro n hn
    obtain ⟨id, -, rfl⟩ := List.mem_map.mp hn
    exact List.mem_range.mpr id.isLt
  have hle := (hnat.subperm hsub).length_le
  rwa [List.length_map, List.length_range] at hle

theorem ingestRows_of_takes (h : Takes host event) (previousHash : Option String) (id activityId : Uuid)
    (now : Instant) : ∃ log activity, ingestRows host event previousHash id activityId now = some (log, activity) ∧
      log.id = id ∧ activity.id = activityId ∧ log.uqAuditEvent = (event.tenantId, event.id) := by
  obtain ⟨hcolumns, huser, htime⟩ := h
  obtain ⟨user, huser⟩ := Option.isSome_iff_exists.mp huser
  obtain ⟨occurredAt, htime⟩ := Option.isSome_iff_exists.mp htime
  exact ⟨_, _, ingestRows_eq_some.mpr ⟨hcolumns, user, occurredAt, huser, htime, rfl, rfl⟩, rfl, rfl, rfl⟩

/-- The transactions, and one of the event started last. -/
def beside (s : Ingest.State) (event : AuditEvent) (phase : Ingest.Phase) : Ingest.State :=
  {s with txns := s.txns ++ [⟨event, s.clock, phase⟩]}

/-- The queries of one transaction. -/
def query (host : Host) (i : Nat) (m : Ingest.Move) (s : Ingest.State) : Option Ingest.State :=
  Ingest.step host (.move i m) s

theorem query_beside (m : Ingest.Move) (phase : Ingest.Phase) :
    query host s.txns.length m (beside s event phase) =
      Ingest.move host m s.txns.length ⟨event, s.clock, phase⟩ (beside s event phase) := by
  simp [query, Ingest.step, beside]

theorem advance_beside (phase next : Ingest.Phase) :
    (beside s event phase).advance s.txns.length ⟨event, s.clock, phase⟩ next = beside s event next := by
  simp [Ingest.State.advance, beside]

theorem holds_of_ended {phase : Ingest.Phase} (h : phase.ended) : phase.holds = false := by
  cases phase <;> first | rfl | cases h

theorem quiet_beside (hended : ∀ t ∈ s.txns, t.phase.ended) {phase : Ingest.Phase} :
    ∀ u ∈ (beside s event phase).txns, u.phase.holds = false ∨ u.phase = phase := by
  intro u hu
  rcases List.mem_append.mp hu with hu | hu
  · exact .inl (holds_of_ended (hended u hu))
  · obtain rfl := List.mem_singleton.mp hu
    exact .inr rfl

/-- The event is ingested, unless it was. -/
theorem completes (hended : ∀ t ∈ s.txns, t.phase.ended) (htakes : Takes host event)
    (hroom : existing s.tables.logs event.tenantId event.id = none →
      s.tables.logs.length < 2 ^ 128 ∧ s.tables.activity.length < 2 ^ 128) :
    ∃ row tables hashed, Reachable (query host s.txns.length) (beside s event .begun)
      (beside {s with tables := tables, hashed := hashed} event (.committed row)) := by
  cases hrow : existing s.tables.logs event.tenantId event.id with
  | some row =>
    have hfound : existing (beside s event .begun).tables.logs event.tenantId event.id = some row := hrow
    have hcheck : query host s.txns.length .check (beside s event .begun) = some (beside s event (.seen row)) := by
      simp only [query_beside, Ingest.move, hfound, advance_beside]
    have hcommit : query host s.txns.length .commit (beside s event (.seen row)) =
        some (beside s event (.committed row)) := by
      simp only [query_beside, Ingest.move, advance_beside]
    exact ⟨row, s.tables, s.hashed, ((Reachable.refl _).next hcheck).next hcommit⟩
  | none =>
    obtain ⟨hlogs, hactivity⟩ := hroom hrow
    obtain ⟨id, hid⟩ := exists_fresh (s.tables.logs.map AuditLog.id) (by rwa [List.length_map])
    obtain ⟨activityId, hactivityId⟩ :=
      exists_fresh (s.tables.activity.map ActivityEvent.id) (by rwa [List.length_map])
    obtain ⟨log, activity, hrows, rfl, rfl, hkey⟩ :=
      ingestRows_of_takes htakes (s.tip event.tenantId) id activityId s.clock
    have hnone : existing (beside s event .begun).tables.logs event.tenantId event.id = none := hrow
    have hcheck : query host s.txns.length .check (beside s event .begun) = some (beside s event .unseen) := by
      simp only [query_beside, Ingest.move, hnone, advance_beside]
    have hfree : Ingest.LockFree host (beside s event .unseen) event := by
      intro u hu hholds
      rcases quiet_beside hended u hu with h | h
      · exact absurd hholds (by simp [h])
      · exact absurd hholds (by simp [h, Ingest.Phase.holds])
    have hlock : query host s.txns.length .lock (beside s event .unseen) = some (beside s event .locked) := by
      simp only [query_beside, Ingest.move, if_pos hfree, advance_beside]
    have hchoose : query host s.txns.length .choose (beside s event .locked) =
        some (beside s event (.chosen (s.tip event.tenantId))) := by
      simp only [query_beside, Ingest.move, advance_beside]
      rfl
    have hadmits : Admits s.tables log activity := by
      refine ⟨fun r hr => ⟨fun heq => ?_, fun heq => ?_⟩, fun a ha heq => ?_⟩
      · exact hid (List.mem_map.mpr ⟨r, hr, congrArg Prod.snd heq⟩)
      · have hsame : r.uqAuditEvent = (event.tenantId, event.id) := by
          rw [← hkey, AuditLog.uqAuditEvent, AuditLog.uqAuditEvent, Prod.mk.injEq]
          exact ⟨congrArg Prod.fst heq, congrArg (fun key => key.2.1) heq⟩
        have hnot := List.find?_eq_none.mp hrow r hr
        exact hnot (decide_eq_true (Prod.mk.inj hsame))
      · exact hactivityId (List.mem_map.mpr ⟨a, ha, heq⟩)
    have hapart : ∀ u ∈ (beside s event (.chosen (s.tip event.tenantId))).txns,
        Ingest.Apart log activity u.phase := by
      intro u hu
      rcases quiet_beside hended u hu with h | h
      · exact Ingest.apart_of_not_holds h
      · rw [h]
        trivial
    have hinsert : query host s.txns.length (.insert log.id activity.id)
        (beside s event (.chosen (s.tip event.tenantId))) =
        some (beside {s with hashed := (canonical event (s.tip event.tenantId)).text :: s.hashed} event
          (.flushed log activity)) := by
      have hok : Admits (beside s event (.chosen (s.tip event.tenantId))).tables log activity ∧
          ∀ u ∈ (beside s event (.chosen (s.tip event.tenantId))).txns, Ingest.Apart log activity u.phase :=
        ⟨hadmits, hapart⟩
      simp only [query_beside, Ingest.move, hrows, Option.bind_some, if_pos hok, advance_beside]
      rfl
    have hcommit : query host s.txns.length .commit
        (beside {s with hashed := (canonical event (s.tip event.tenantId)).text :: s.hashed} event
          (.flushed log activity)) =
        some (beside {s with
          tables := s.tables.insert log activity
          hashed := (canonical event (s.tip event.tenantId)).text :: s.hashed} event (.committed log)) := by
      refine (@query_beside host {s with hashed := (canonical event (s.tip event.tenantId)).text :: s.hashed} event
        .commit (.flushed log activity)).trans ?_
      simp only [Ingest.move, advance_beside]
      rfl
    exact ⟨log, s.tables.insert log activity, _,
      (((((Reachable.refl _).next hcheck).next hlock).next hchoose).next hinsert).next hcommit⟩

end Ingest

/-! ### A relay with nobody else -/

section Relay
variable {s : Relay.State}

/-- The relays with worker 0 at work, and other rows. -/
def working (s : Relay.State) (rows : List Relay.Row) (worker : Relay.Worker) : Relay.State :=
  {s with rows := rows, workers := s.workers.set 0 worker}

theorem set_working (rows : List Relay.Row) (worker next : Relay.Worker) :
    (working s rows worker).set 0 next = working s rows next := by
  simp [Relay.State.set, working]

/-- A step of worker 0. -/
theorem step_working (hmanned : 0 < s.workers.length) (a : Relay.Step) (rows : List Relay.Row)
    (worker : Relay.Worker) :
    Relay.step (.worker 0 a) (working s rows worker) = Relay.act a 0 worker (working s rows worker) := by
  simp [Relay.step, working, hmanned]

theorem working_idle (hidle : ∀ worker ∈ s.workers, worker = .idle) (rows : List Relay.Row) :
    working s rows .idle = {s with rows := rows} := by
  have hworkers : s.workers.set 0 .idle = s.workers := by
    cases h : s.workers with
    | nil => rfl
    | cons worker rest =>
      rw [hidle worker (by simp [h])]
      rfl
  rw [working, hworkers]

theorem not_locked_working (hidle : ∀ worker ∈ s.workers, worker = .idle) {rows : List Relay.Row}
    {worker : Relay.Worker} {id : Uuid} (h : ¬ worker.Locks id) : ¬ Relay.Locked (working s rows worker) id := by
  rintro ⟨other, hother, hlocks⟩
  rcases List.mem_or_eq_of_mem_set hother with hother | rfl
  · rw [hidle other hother] at hlocks
    exact hlocks
  · exact h hlocks

/-- The oldest claimable record. -/
def oldest (now : Instant) (rows : List Relay.Row) : Option OutboxRecord :=
  Query.first (fun r q : OutboxRecord => r.createdAt ≤ q.createdAt)
    ((rows.map Relay.Row.record).filter fun r => Claimable now r)

theorem select_eq (hfree : ∀ id, ¬ Relay.Locked s id) (now : Instant) :
    Relay.select s now [] = oldest now s.rows := by
  have hsame : (fun r : OutboxRecord => decide (Claimable now r ∧ ¬ Relay.Locked s r.id ∧ r.id ∉ ([] : List Uuid))) =
      fun r => decide (Claimable now r) := by
    funext r
    simp [hfree]
  rw [Relay.select, oldest, hsame]

/-- The rows after the claim of `r` and its outcome. -/
def settle (now : Instant) (r : OutboxRecord) (outcome : OutboxRecord → OutboxRecord) (row : Relay.Row) : Relay.Row :=
  Relay.settled now 0 (claim now r) (outcome (claim now r)) (Relay.granted now 0 r (claim now r) row)

/-- The rows after `update`. -/
def rewrite (id : Uuid) (f : Relay.Row → Relay.Row) (rows : List Relay.Row) : List Relay.Row :=
  rows.map fun row => if row.record.id = id then f row else row

theorem rewrite_rewrite {id : Uuid} {f g : Relay.Row → Relay.Row} (hf : Relay.Keeps f) (rows : List Relay.Row) :
    rewrite id g (rewrite id f rows) = rewrite id (fun row => g (f row)) rows := by
  simp only [rewrite, List.map_map]
  refine List.map_congr_left fun row _ => ?_
  simp only [Function.comp_apply]
  split_ifs with h h'
  · rfl
  · exact absurd ((hf.id row).trans h) h'
  · rfl

/-- Worker 0 claims the oldest record. -/
theorem claims (hidle : ∀ worker ∈ s.workers, worker = .idle) (hmanned : 0 < s.workers.length) {r : OutboxRecord}
    (hr : oldest s.clock s.rows = some r) :
    Relay.step (.worker 0 .readClock) s = some (working s s.rows (.claiming s.clock)) ∧
      Relay.step (.worker 0 (.select [])) (working s s.rows (.claiming s.clock)) =
        some (working s s.rows (.selected r (claim s.clock r))) ∧
      Relay.step (.worker 0 .commitClaim) (working s s.rows (.selected r (claim s.clock r))) =
        some (working s (rewrite r.id (Relay.granted s.clock 0 r (claim s.clock r)) s.rows)
          (.holding (claim s.clock r))) := by
  refine ⟨?_, ?_, ?_⟩
  · have hstart := step_working hmanned .readClock s.rows .idle
    rw [working_idle hidle] at hstart
    exact hstart
  · have hfree : ∀ id, ¬ Relay.Locked (working s s.rows (.claiming s.clock)) id :=
      fun id => not_locked_working hidle fun h => h
    have hselect : Relay.select (working s s.rows (.claiming s.clock)) s.clock [] = some r :=
      (select_eq hfree s.clock).trans hr
    rw [step_working hmanned]
    simp only [Relay.act, hselect, set_working]
  · rw [step_working hmanned]
    simp only [Relay.act, set_working]
    rfl

theorem publishes (hmanned : 0 < s.workers.length) (rows : List Relay.Row) (r : OutboxRecord) :
    Relay.step (.worker 0 .publishOk) (working s rows (.holding r)) =
      some (working s rows (.settling r (succeed s.clock r))) := by
  rw [step_working hmanned]
  simp only [Relay.act, set_working]
  rfl

theorem fails (hmanned : 0 < s.workers.length) (rows : List Relay.Row) (r : OutboxRecord) (error : String) :
    Relay.step (.worker 0 (.publishError error)) (working s rows (.holding r)) =
      some (working s rows (.settling r (fail s.clock error r))) := by
  rw [step_working hmanned]
  simp only [Relay.act, set_working]
  rfl

/-- Worker 0 commits an outcome. -/
theorem settles (hidle : ∀ worker ∈ s.workers, worker = .idle) (hmanned : 0 < s.workers.length)
    (r : OutboxRecord) (outcome : OutboxRecord → OutboxRecord) :
    Relay.step (.worker 0 .commitOutcome)
        (working s (rewrite r.id (Relay.granted s.clock 0 r (claim s.clock r)) s.rows)
          (.settling (claim s.clock r) (outcome (claim s.clock r)))) =
      some {s with rows := rewrite r.id (settle s.clock r outcome) s.rows} := by
  have hfree : ¬ Relay.Locked (working s (rewrite r.id (Relay.granted s.clock 0 r (claim s.clock r)) s.rows)
      (.settling (claim s.clock r) (outcome (claim s.clock r)))) (claim s.clock r).id :=
    not_locked_working hidle fun h => h
  have hrows : rewrite r.id (settle s.clock r outcome) s.rows =
      rewrite r.id (Relay.settled s.clock 0 (claim s.clock r) (outcome (claim s.clock r)))
        (rewrite r.id (Relay.granted s.clock 0 r (claim s.clock r)) s.rows) :=
    (rewrite_rewrite (Relay.keeps_granted _ _ _ _) s.rows).symm
  rw [step_working hmanned, hrows]
  simp only [Relay.act, set_working, working_idle hidle]
  rw [if_neg hfree]
  rfl

theorem keeps_settle (now : Instant) (r : OutboxRecord) (outcome : OutboxRecord → OutboxRecord) :
    Relay.Keeps (settle now r outcome) := ⟨fun _ => rfl, fun _ => rfl⟩

theorem status_write (old new : OutboxRecord) : (write old new old).status = new.status := by
  simp only [write]
  split_ifs with h
  · exact h.symm
  · rfl

theorem availableAt_write (old new : OutboxRecord) : (write old new old).availableAt = new.availableAt := by
  simp only [write]
  split_ifs with h
  · exact h.symm
  · rfl

/-- The row of the record has the outcome. -/
theorem record_settle {now : Instant} {row : Relay.Row} (outcome : OutboxRecord → OutboxRecord) :
    (settle now row.record outcome row).record =
      write (claim now row.record) (outcome (claim now row.record)) (claim now row.record) := by
  simp only [settle, Relay.settled, Relay.granted, write_claim]

theorem published_settle (now : Instant) (row : Relay.Row) :
    (settle now row.record (succeed now) row).record.status = .published := by
  rw [record_settle, status_write]
  rfl

/-- A failed record is not tried again at once. -/
theorem postponed_settle (now : Instant) (error : String) (row : Relay.Row) :
    ¬ Claimable now (settle now row.record (fail now error) row).record := by
  rintro ⟨-, havailable⟩
  rw [record_settle, availableAt_write] at havailable
  have hbackoff : 0 < backoff (claim now row.record).attempts := by
    simp only [backoff, Datetime.second]
    positivity
  exact absurd havailable (Nat.not_le.mpr (Nat.lt_add_of_pos_right hbackoff))

end Relay

/-! ### One record -/

/-- Nobody is at work, and a relay can be. -/
structure Quiet (host : Host) (s : Delivery.State) : Prop where
  inv : Delivery.Inv host s
  idle : ∀ worker ∈ s.relay.workers, worker = .idle
  manned : 0 < s.relay.workers.length
  ended : ∀ t ∈ s.audit.txns, t.phase.ended

section Round
variable {host : Host} {s : Delivery.State}

theorem Quiet.request (h : Quiet host s) (w : Nat) : s.request w = none := by
  cases hw : s.request w with
  | none => rfl
  | some i =>
    obtain ⟨r, t, hr, -⟩ := h.inv.request w i hw
    cases h.idle _ (List.mem_of_getElem? hr)

/-- There are ids for what is still to be ingested. -/
theorem room (h : Delivery.Inv host s) {row : Relay.Row} (hrow : row ∈ s.relay.rows)
    (hnone : existing s.audit.tables.logs row.record.payload.tenantId row.record.payload.id = none) :
    s.audit.tables.logs.length < 2 ^ 128 ∧ s.audit.tables.activity.length < 2 ^ 128 := by
  have hnew : row.eventKey ∉ s.audit.tables.logs.map AuditLog.uqAuditEvent := by
    intro hmem
    obtain ⟨log, hlog, hkey⟩ := List.mem_map.mp hmem
    exact List.find?_eq_none.mp hnone log hlog (decide_eq_true (Prod.mk.inj hkey))
  have hsub : row.eventKey :: s.audit.tables.logs.map AuditLog.uqAuditEvent ⊆ s.relay.rows.map Relay.Row.eventKey := by
    refine List.cons_subset.mpr ⟨List.mem_map_of_mem hrow, fun key hkey => ?_⟩
    obtain ⟨log, hlog, rfl⟩ := List.mem_map.mp hkey
    obtain ⟨event, ⟨row', hrow', rfl⟩, hevent, -⟩ := h.origin log hlog
    exact hevent ▸ List.mem_map_of_mem hrow'
  have hlogs : s.audit.tables.logs.length + 1 ≤ s.relay.rows.length := by
    simpa using ((List.nodup_cons.mpr ⟨hnew, h.deduplicated.logs⟩).subperm hsub).length_le
  have hrows : s.relay.rows.length ≤ 2 ^ 128 := by
    have hle := length_le_of_nodup h.relay.unique
    rwa [List.length_map] at hle
  have hactivity : s.audit.tables.activity.length = s.audit.tables.logs.length := by
    simpa using congrArg List.length h.audit.paired
  omega

theorem relay_step {a : Relay.Action} {relay : Relay.State} (hallowed : allowed s a)
    (hs : Relay.step a s.relay = some relay) :
    Delivery.step host (.relay a) s = some {s with relay := relay, request := forget a s.request} := by
  simp only [Delivery.step, if_pos hallowed, hs, Option.map_some]

/-- The claimed rows. -/
abbrev claimed (s : Delivery.State) (r : OutboxRecord) : List Relay.Row :=
  rewrite r.id (Relay.granted s.relay.clock 0 r (claim s.relay.clock r)) s.relay.rows

/-- The relay holds the oldest record. -/
theorem claim_reachable (h : Quiet host s) {r : OutboxRecord} (hr : oldest s.relay.clock s.relay.rows = some r) :
    Reachable (Delivery.step host) s
      {s with relay := working s.relay (claimed s r) (.holding (claim s.relay.clock r))} := by
  obtain ⟨hclock, hselect, hclaim⟩ := claims h.idle h.manned hr
  have hfirst : Delivery.step host (.relay (.worker 0 .readClock)) s =
      some {s with relay := working s.relay s.relay.rows (.claiming s.relay.clock)} := relay_step rfl hclock
  have hsecond : Delivery.step host (.relay (.worker 0 (.select [])))
        {s with relay := working s.relay s.relay.rows (.claiming s.relay.clock)} =
      some {s with relay := working s.relay s.relay.rows (.selected r (claim s.relay.clock r))} :=
    relay_step rfl hselect
  have hthird : Delivery.step host (.relay (.worker 0 .commitClaim))
        {s with relay := working s.relay s.relay.rows (.selected r (claim s.relay.clock r))} =
      some {s with relay := working s.relay (claimed s r) (.holding (claim s.relay.clock r))} := relay_step rfl hclaim
  exact (((Reachable.refl s).next hfirst).next hsecond).next hthird

/-- The publish ends, and its outcome is committed. -/
theorem settle_reachable (h : Quiet host s) {r : OutboxRecord} {u : Delivery.State}
    (hu : Reachable (Delivery.step host) s u) (hended : ∀ t ∈ u.audit.txns, t.phase.ended) {a : Relay.Step}
    (hallowed : allowed u (.worker 0 a)) {outcome : OutboxRecord → OutboxRecord}
    (houtcome : Relay.step (.worker 0 a) u.relay = some (working s.relay (claimed s r)
      (.settling (claim s.relay.clock r) (outcome (claim s.relay.clock r))))) :
    ∃ t, Reachable (Delivery.step host) s t ∧ Quiet host t ∧
      t.relay = {s.relay with rows := rewrite r.id (settle s.relay.clock r outcome) s.relay.rows} := by
  have hpublish : Delivery.step host (.relay (.worker 0 a)) u = some {u with
      relay := working s.relay (claimed s r) (.settling (claim s.relay.clock r) (outcome (claim s.relay.clock r)))
      request := forget (.worker 0 a) u.request} := relay_step hallowed houtcome
  have hcommit := settles h.idle h.manned r outcome
  have hreach := (hu.next hpublish).next (relay_step rfl hcommit)
  have hinv : Delivery.Inv host _ := hreach.invariant h.inv fun _ _ _ => Delivery.Inv.step
  exact ⟨_, hreach, ⟨hinv, h.idle, h.manned, hended⟩, rfl⟩

/-- The queries of one ingest transaction. -/
theorem ingest_reachable {i : Nat} {audit audit' : Ingest.State} (relay : Relay.State) (request : Nat → Option Nat)
    (h : Reachable (query host i) audit audit') :
    Reachable (Delivery.step host) ⟨relay, audit, request⟩ ⟨relay, audit', request⟩ := by
  refine h.map (fun audit => (⟨relay, audit, request⟩ : Delivery.State)) (Delivery.Action.ingest i)
    fun m a b hstep => ?_
  have hmove : Ingest.step host (.move i m) a = some b := hstep
  simp only [Delivery.step, hmove, Option.map_some]

/-- The event of the record held is ingested. -/
theorem post_reachable (h : Quiet host s) {r : OutboxRecord} {row : Relay.Row} (hrow : row ∈ s.relay.rows)
    (hpayload : row.record.payload = r.payload) (htakes : Takes host r.payload) (relay : Relay.State)
    (hholding : relay.workers[0]? = some (.holding r)) :
    ∃ u, Reachable (Delivery.step host) {s with relay := relay} u ∧ u.relay = relay ∧
      (∀ t ∈ u.audit.txns, t.phase.ended) ∧ answered u 0 := by
  have hpost : Delivery.step host (.post 0) {s with relay := relay} =
      some {s with
        relay := relay
        audit := beside s.audit r.payload .begun
        request := Function.update s.request 0 (some s.audit.txns.length)} := by
    simp only [Delivery.step, hholding, h.request]
    rfl
  have hroom := room h.inv hrow
  rw [hpayload] at hroom
  obtain ⟨log, tables, hashed, hingest⟩ := completes h.ended htakes hroom
  have hlifted := ingest_reachable relay (Function.update s.request 0 (some s.audit.txns.length)) hingest
  refine ⟨_, ((Reachable.refl _).next hpost).trans hlifted, rfl, ?_, ?_⟩
  · intro t ht
    rcases List.mem_append.mp ht with ht | ht
    · exact h.ended t ht
    · obtain rfl := List.mem_singleton.mp ht
      rfl
  · simp [answered, beside]

/-- **The oldest record is published, or put off**: one round of the relay. -/
theorem round (h : Quiet host s) {r : OutboxRecord} (hr : oldest s.relay.clock s.relay.rows = some r) :
    ∃ t f, Reachable (Delivery.step host) s t ∧ Quiet host t ∧
      t.relay = {s.relay with rows := rewrite r.id f s.relay.rows} ∧ Relay.Keeps f ∧
      ∀ row ∈ s.relay.rows, row.record = r → ¬ Claimable s.relay.clock (f row).record ∧
        (Takes host r.payload → (f row).record.status = .published) := by
  have hmem := (List.mem_filter.mp (Query.mem_of_first hr)).1
  obtain ⟨row, hrow, rfl⟩ := List.mem_map.mp hmem
  have hclaimed := claim_reachable h hr
  by_cases htakes : Takes host row.record.payload
  · obtain ⟨u, hu, hrelay, hended, hanswered⟩ := post_reachable h (r := claim s.relay.clock row.record) hrow rfl htakes
      (working s.relay (claimed s row.record) (.holding (claim s.relay.clock row.record)))
      (by simp [working, h.manned])
    have hpublish := publishes h.manned (claimed s row.record) (claim s.relay.clock row.record)
    rw [← hrelay] at hpublish
    obtain ⟨t, ht, hquiet, hrows⟩ := settle_reachable h (hclaimed.trans hu) hended (a := .publishOk) hanswered hpublish
    refine ⟨t, _, ht, hquiet, hrows, keeps_settle _ _ _, ?_⟩
    intro row' _ hsame
    have hpublished : (settle s.relay.clock row.record (succeed s.relay.clock) row').record.status = .published := by
      rw [← hsame]
      exact published_settle _ _
    exact ⟨fun hclaimable => by simp [Claimable, hpublished] at hclaimable, fun _ => hpublished⟩
  · have hfail := fails h.manned (claimed s row.record) (claim s.relay.clock row.record) ""
    obtain ⟨t, ht, hquiet, hrows⟩ := settle_reachable h hclaimed h.ended rfl hfail
    refine ⟨t, _, ht, hquiet, hrows, keeps_settle _ _ _, ?_⟩
    intro row' _ hsame
    rw [← hsame]
    exact ⟨postponed_settle _ _ _, fun htaken => absurd (hsame ▸ htaken) htakes⟩

end Round

/-! ### Starting over -/

theorem countP_set_lt {α : Type*} {p : α → Bool} {l : List α} {i : Nat} {old new : α} (hi : l[i]? = some old)
    (hold : p old = true) (hnew : p new = false) : (l.set i new).countP p < l.countP p := by
  obtain ⟨hlt, hget⟩ := List.getElem?_eq_some_iff.mp hi
  have hpos : 0 < l.countP p := List.countP_pos_iff.mpr ⟨old, List.mem_of_getElem? hi, hold⟩
  rw [List.countP_set hlt, hget, if_pos hold, hnew]
  simpa using hpos

theorem countP_map_lt {α : Type*} {p : α → Bool} {f : α → α} {l : List α} (hmono : ∀ x ∈ l, p (f x) → p x)
    (hone : ∃ x ∈ l, p x ∧ p (f x) = false) : (l.map f).countP p < l.countP p := by
  induction l with
  | nil =>
    obtain ⟨x, hx, -⟩ := hone
    cases hx
  | cons x rest ih =>
    have hrest : (rest.map f).countP p ≤ rest.countP p := by
      rw [List.countP_map]
      exact List.countP_mono_left fun y hy => hmono y (List.mem_cons_of_mem _ hy)
    rw [List.map_cons, List.countP_cons, List.countP_cons]
    obtain ⟨y, hy, hpy, hfy⟩ := hone
    rcases List.mem_cons.mp hy with rfl | hy
    · rw [if_pos hpy, hfy]
      exact Nat.lt_succ_of_le hrest
    · have hlt := ih (fun z hz => hmono z (List.mem_cons_of_mem _ hz)) ⟨y, hy, hpy, hfy⟩
      have hx := hmono x (List.mem_cons_self ..)
      split_ifs with h h'
      · omega
      · exact absurd (hx h) h'
      · omega
      · omega

def busy : Relay.Worker → Bool
  | .idle => false
  | _ => true

theorem idle_of_not_busy {worker : Relay.Worker} (h : busy worker = false) : worker = .idle := by
  cases worker <;> first | rfl | cases h

section Restart
variable {host : Host} {s : Delivery.State}

/-- The records and the time of the relays are the same. -/
structure Same (host : Host) (s u : Delivery.State) : Prop where
  inv : Delivery.Inv host u
  rows : u.relay.rows = s.relay.rows
  clock : u.relay.clock = s.relay.clock

/-- All relays crash. -/
theorem crash_all (h : Delivery.Inv host s) :
    ∃ u, Reachable (Delivery.step host) s u ∧ Same host s u ∧ ∀ worker ∈ u.relay.workers, worker = .idle := by
  refine Reachable.of_measure (fun u => u.relay.workers.countP busy) (fun u hu => ?_) ⟨h, rfl, rfl⟩
  by_cases hidle : ∀ worker ∈ u.relay.workers, worker = .idle
  · exact .inl hidle
  · obtain ⟨worker, hworker, hne⟩ : ∃ worker ∈ u.relay.workers, worker ≠ .idle := by simpa using hidle
    obtain ⟨w, hw⟩ := List.mem_iff_getElem?.mp hworker
    have hbusy : busy worker = true := by
      by_contra hnot
      exact hne (idle_of_not_busy (by simpa using hnot))
    have hrelay : Relay.step (.worker w .crash) u.relay = some (u.relay.set w .idle) := by
      simp only [Relay.step, hw, Option.bind_some]
      rfl
    have hcrash : Delivery.step host (.relay (.worker w .crash)) u =
        some {u with relay := u.relay.set w .idle, request := forget (.worker w .crash) u.request} :=
      relay_step rfl hrelay
    exact .inr ⟨_, (Reachable.refl u).next hcrash, ⟨hu.inv.step hcrash, hu.rows, hu.clock⟩,
      countP_set_lt hw hbusy rfl⟩

/-- All open transactions are rolled back. -/
theorem rollback_all (h : Delivery.Inv host s) :
    ∃ u, Reachable (Delivery.step host) s u ∧ (Same host s u ∧ u.relay.workers = s.relay.workers) ∧
      ∀ t ∈ u.audit.txns, t.phase.ended := by
  refine Reachable.of_measure (fun u => u.audit.txns.countP fun t => !t.phase.ended) (fun u hu => ?_)
    ⟨⟨h, rfl, rfl⟩, rfl⟩
  by_cases hended : ∀ t ∈ u.audit.txns, t.phase.ended
  · exact .inl hended
  · obtain ⟨t, ht, hopen⟩ : ∃ t ∈ u.audit.txns, t.phase.ended = false := by simpa using hended
    obtain ⟨i, hi⟩ := List.mem_iff_getElem?.mp ht
    have hingest : Ingest.step host (.move i .rollback) u.audit = some (u.audit.advance i t .aborted) := by
      simp only [Ingest.step, hi, Option.bind_some, Ingest.move, hopen]
      rfl
    have hrollback : Delivery.step host (.ingest i .rollback) u =
        some {u with audit := u.audit.advance i t .aborted} := by
      simp only [Delivery.step, hingest, Option.map_some]
    exact .inr ⟨_, (Reachable.refl u).next hrollback, ⟨⟨hu.1.inv.step hrollback, hu.1.rows, hu.1.clock⟩, hu.2⟩,
      countP_set_lt hi (by simp [hopen]) rfl⟩

/-- After a restart and a lease, nobody holds anything. -/
theorem restart (h : Delivery.Inv host s) : ∃ u, Reachable (Delivery.step host) s u ∧ Quiet host u ∧
    u.relay.rows = s.relay.rows ∧ u.relay.clock = s.relay.clock + lease := by
  obtain ⟨u, hu, hsame, hidle⟩ := crash_all h
  obtain ⟨v, hv, ⟨hsame', hworkers⟩, hended⟩ := rollback_all hsame.inv
  have hboot : Delivery.step host (.relay .boot) v =
      some {v with relay := {v.relay with workers := v.relay.workers ++ [.idle]}} := relay_step rfl rfl
  have hreach := ((hu.trans hv).next hboot).next (a := .tick lease) rfl
  refine ⟨_, hreach, ⟨hreach.invariant h fun _ _ _ => Delivery.Inv.step, ?_, ?_, hended⟩, ?_, ?_⟩
  · intro worker hworker
    rcases List.mem_append.mp hworker with hworker | hworker
    · exact hidle worker (hworkers ▸ hworker)
    · exact List.mem_singleton.mp hworker
  · simp
  · exact hsame'.rows.trans hsame.rows
  · show v.relay.clock + lease = _
    rw [hsame'.clock, hsame.clock]

end Restart

/-! ### All records -/

/-- From here everything that can be delivered can be delivered within a lease. -/
def Recoverable (host : Host) (s : Delivery.State) : Prop :=
  ∃ t, Reachable (Delivery.step host) s t ∧ t.relay.clock = s.relay.clock + lease ∧
    ∀ row ∈ s.relay.rows, row.record.status ≠ .dead → Takes host row.record.payload →
      (∃ row' ∈ t.relay.rows, row'.record.id = row.record.id ∧ row'.record.status = .published) ∧
        logRows t row.record.payload = 1 ∧ activityRows t row.record.payload = 1

section Drain
variable {host : Host} {s : Delivery.State}

/-- The record is in the outbox yet, and is published or can be claimed. -/
def Pending (now : Instant) (rows : List Relay.Row) (record : OutboxRecord) : Prop :=
  ∃ row ∈ rows, row.record.id = record.id ∧ row.record.payload = record.payload ∧
    (row.record.status = .published ∨ Claimable now row.record)

theorem claimable_of_bounded (h : Delivery.Inv host s) {row : Relay.Row} (hrow : row ∈ s.relay.rows)
    (hdead : row.record.status ≠ .dead) :
    row.record.status = .published ∨ Claimable (s.relay.clock + lease) row.record := by
  have hbound := h.relay.bounded row hrow
  have havailable : row.record.availableAt ≤ s.relay.clock + lease :=
    hbound.1.trans (Nat.add_le_add_right hbound.2 lease)
  cases hstatus : row.record.status with
  | pending => exact .inr ⟨.inl hstatus, havailable⟩
  | publishing => exact .inr ⟨.inr hstatus, havailable⟩
  | published => exact .inl rfl
  | dead => exact absurd hstatus hdead

/-- A round leaves what it does not publish. -/
theorem Pending.round {r record : OutboxRecord} {rows : List Relay.Row} {now : Instant} {f : Relay.Row → Relay.Row}
    (h : Pending now rows record) (hunique : ∀ row ∈ rows, row.record.id = r.id → row.record = r) (hf : Relay.Keeps f)
    (hpublished : ∀ row ∈ rows, row.record = r → r.payload = record.payload → (f row).record.status = .published) :
    Pending now (rewrite r.id f rows) record := by
  obtain ⟨row, hrow, hid, hpayload, hstate⟩ := h
  refine ⟨_, List.mem_map.mpr ⟨row, hrow, rfl⟩, ?_⟩
  split_ifs with hsame
  · have hrecord := hunique row hrow hsame
    refine ⟨(hf.id row).trans hid, (hf.payload row).trans hpayload, .inl (hpublished row hrow hrecord ?_)⟩
    rw [← hrecord, hpayload]
  · exact ⟨hid, hpayload, hstate⟩

/-- Round after round, until nothing is claimable. -/
theorem drain (h : Quiet host s) {R : OutboxRecord → Prop} (htakes : ∀ record, R record → Takes host record.payload)
    (hpending : ∀ record, R record → Pending s.relay.clock s.relay.rows record) :
    ∃ t, Reachable (Delivery.step host) s t ∧ (Quiet host t ∧ t.relay.clock = s.relay.clock ∧
      ∀ record, R record → Pending s.relay.clock t.relay.rows record) ∧ oldest s.relay.clock t.relay.rows = none := by
  refine Reachable.of_measure (fun u => u.relay.rows.countP fun row => Claimable s.relay.clock row.record)
    (fun u hu => ?_) ⟨h, rfl, hpending⟩
  obtain ⟨hquiet, hclock, hpending⟩ := hu
  cases hr : oldest s.relay.clock u.relay.rows with
  | none => exact .inl rfl
  | some r =>
    obtain ⟨hmem, hclaimable⟩ := List.mem_filter.mp (Query.mem_of_first hr)
    obtain ⟨row, hrow, hrecord⟩ := List.mem_map.mp hmem
    have hunique : ∀ row' ∈ u.relay.rows, row'.record.id = r.id → row'.record = r := by
      intro row' hrow' hid
      rw [← hrecord, Relay.row_unique hquiet.inv.relay hrow' hrow (by rw [hid, hrecord])]
    rw [← hclock] at hr
    obtain ⟨t, f, ht, hquiet', hrelay, hf, hsettled⟩ := round hquiet hr
    rw [hclock] at hsettled
    refine .inr ⟨t, ht, ⟨hquiet', by rw [hrelay, hclock], fun record hrecord => ?_⟩, ?_⟩
    · rw [hrelay]
      exact (hpending record hrecord).round hunique hf fun row' hrow' hsame hpayload =>
        (hsettled row' hrow' hsame).2 (hpayload ▸ htakes record hrecord)
    · rw [hrelay]
      refine countP_map_lt (fun row' hrow' hafter => ?_) ⟨row, hrow, by rw [hrecord]; exact hclaimable, ?_⟩
      · split_ifs at hafter with hid
        · exact absurd (of_decide_eq_true hafter) (hsettled row' hrow' (hunique row' hrow' hid)).1
        · exact hafter
      · rw [if_pos (by rw [hrecord])]
        exact decide_eq_false (hsettled row hrow hrecord).1

theorem recoverable (h : Delivery.Inv host s) : Recoverable host s := by
  obtain ⟨u, hu, hquiet, hrows, hclock⟩ := restart h
  obtain ⟨t, ht, ⟨hquiet', htime, hpending⟩, hnone⟩ := drain hquiet
    (R := fun record => ∃ row ∈ s.relay.rows, row.record = record ∧ record.status ≠ .dead ∧ Takes host record.payload)
    (fun _ hrecord => by
      obtain ⟨row, hrow, rfl, hdead, htakes⟩ := hrecord
      exact htakes)
    fun _ hrecord => by
      obtain ⟨row, hrow, rfl, hdead, htakes⟩ := hrecord
      exact ⟨row, hrows ▸ hrow, rfl, rfl, hclock ▸ claimable_of_bounded h hrow hdead⟩
  refine ⟨t, hu.trans ht, htime.trans hclock, fun row hrow hdead htakes => ?_⟩
  obtain ⟨row', hrow', hid, hpayload, hstate⟩ := hpending row.record ⟨row, hrow, rfl, hdead, htakes⟩
  have hpublished : row'.record.status = .published := by
    refine hstate.resolve_right fun hclaimable => ?_
    have hmem : row'.record ∈ (t.relay.rows.map Relay.Row.record).filter fun r => Claimable u.relay.clock r :=
      List.mem_filter.mpr ⟨List.mem_map_of_mem hrow', decide_eq_true hclaimable⟩
    rw [Query.first_eq_none.mp hnone] at hmem
    cases hmem
  have hdelivered := (delivered_of_inv hquiet'.inv).published row' hrow' hpublished
  rw [hpayload] at hdelivered
  exact ⟨⟨row', hrow', hid, hpublished⟩, hdelivered⟩

end Drain

/-- **Nothing gets stuck**: from every state that relays and ingest transactions can get into, a
restart, a lease and the rounds of one relay publish every record that is not dead and whose
event the audit service can take, so that the event is in both tables, once. -/
theorem always_recoverable (host : Host) (actions : List Delivery.Action) :
    Always (Delivery.step host) (Recoverable host) actions Delivery.initial :=
  (Always.of_invariant actions Delivery.inv_initial fun _ _ _ hinv hs => hinv.step hs).mono
    fun _ => recoverable

end Sentinel.Recovery
