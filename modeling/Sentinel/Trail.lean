import Sentinel.Authorization
import Sentinel.Delivery

/-! From the command to the audit trail: what the timeline of an operation tells.

Commands insert into the outbox, relays publish what is in it, and the audit service ingests
it. The outbox is one table: a transaction inserts its record, and the relays have a row
more. Sign-ins and graph queries insert records too, none of them about an operation. -/
namespace Sentinel.Trail
open Library Library.Transition Library.ReadCommitted Common
open Identity (Administers)
open Identity.SignIn (Deployment)

structure State where
  services : Authorization.State
  delivery : Delivery.State

inductive Action where
  | services (a : Authorization.Action)
  /-- A transaction that is no command's inserts a record. -/
  | other (event : AuditEvent) (e : Envelope)
  | delivery (a : Delivery.Action)

/-- `operation_timeline`. -/
def operationTimeline (tenantId operationId : Uuid) (s : Audit.Tables) : List Audit.AuditLog :=
  (Audit.search tenantId ⟨none, none, none, none, some "operation", some operationId.str, none, none, 1000⟩ s).reverse

/-- Only transactions insert. -/
def inserts : Delivery.Action → Bool
  | .relay (.enqueue _ _ _ _) => true
  | _ => false

section Step
variable (d : Deployment) (host : Inventory.Host) (auditHost : Audit.Host)

/-- A record inserted, as the relays have it. -/
def insert (event : AuditEvent) (id : Uuid) (availableAt createdAt : Instant) (s : Delivery.State) :
    Option Delivery.State :=
  Delivery.step auditHost (.relay (.enqueue event id availableAt createdAt)) s

def insertAll : List OutboxRecord → Delivery.State → Option Delivery.State
  | [], s => some s
  | r :: rest, s => (insert auditHost r.payload r.id r.availableAt r.createdAt s).bind (insertAll rest)

/-- What a step of the services inserted. -/
def inserted (s t : Authorization.State) : List OutboxRecord :=
  t.database.outbox.records.drop s.database.outbox.records.length

def step (a : Action) (s : State) : Option State :=
  match a with
  | .services a =>
    (Authorization.step d host a s.services).bind fun services =>
      (insertAll auditHost (inserted s.services services) s.delivery).map fun delivery => ⟨services, delivery⟩
  | .other event e =>
    if event.entityType = "operation" then none
    else (insert auditHost event e.recordId e.availableAt e.createdAt s.delivery).map fun delivery =>
      {s with delivery := delivery}
  | .delivery a =>
    if inserts a then none
    else (Delivery.step auditHost a s.delivery).map fun delivery => {s with delivery := delivery}

end Step

def initial (now : Nat) : State := ⟨Authorization.initial now, Delivery.initial⟩

/-! ### The records of operations -/

/-- The event says who requested the operation. -/
structure Tells (o : Operations.Operation) (e : AuditEvent) : Prop where
  entityType : e.entityType = "operation"
  entityId : e.entityId = some o.id.str
  tenantId : e.tenantId = o.tenantId
  action : e.action = "operation.create"
  actorType : e.actorType = "user"
  actorId : e.actorId = o.requestedBy.str

/-- The events in the outbox. -/
def events (s : Delivery.State) : List AuditEvent := s.relay.rows.map fun row => row.record.payload

/-- Those about operations. -/
def told (s : Delivery.State) : List AuditEvent := (events s).filter fun e => e.entityType = "operation"

/-- Records are added: one that tells of a new operation, or some about no operation. -/
inductive Adds (db db' : Commands.Database) : Prop
  | others (new : List OutboxRecord) (hoperations : db'.operations.operations = db.operations.operations)
      (hrecords : db'.outbox.records = db.outbox.records ++ new)
      (hothers : ∀ r ∈ new, r.payload.entityType ≠ "operation") : Adds db db'
  | operation (o : Operations.Operation) (r : OutboxRecord)
      (hoperations : db'.operations.operations = db.operations.operations ++ [o])
      (hrecords : db'.outbox.records = db.outbox.records ++ [r]) (htells : Tells o r.payload) : Adds db db'

section Adds
variable {d : Deployment} {host : Inventory.Host} {db db' : Commands.Database}

theorem Adds.of_same (hoperations : db'.operations = db.operations) (houtbox : db'.outbox = db.outbox) :
    Adds db db' :=
  .others [] (by rw [hoperations]) (by rw [houtbox, List.append_nil]) (by simp)

theorem Adds.before {start : Commands.Database} (h : Adds db db') (hoperations : start.operations = db.operations)
    (houtbox : start.outbox = db.outbox) : Adds start db' := by
  cases h with
  | others new hsame hrecords hothers =>
    exact .others new (by rw [hoperations, hsame]) (by rw [houtbox, hrecords]) hothers
  | operation o r hmore hrecords htells =>
    exact .operation o r (by rw [hoperations, hmore]) (by rw [houtbox, hrecords]) htells

/-- One record about something else. -/
theorem Adds.of_enqueue {event : AuditEvent} {e : Envelope} (hoperations : db'.operations = db.operations)
    (h : db.outbox.enqueue event e = some db'.outbox) (hother : event.entityType ≠ "operation") : Adds db db' :=
  .others _ (by rw [hoperations]) (Outbox.enqueue_records h) (List.forall_mem_singleton.mpr hother)

theorem adds_commit {t : Commands.Txn} (hled : Authorization.Led db.identity t) (hc : Commands.Commits db t db') :
    Adds db db' := by
  cases hc with
  | callback => cases hled
  | discover => exact .of_same rfl rfl
  | syncJob _ ho => exact .of_enqueue rfl ho (by simp [Inventory.jobRequested])
  | assessment _ ho => exact .of_enqueue rfl ho (by simp [Intelligence.assessmentRequested])
  | replayed => exact .of_same rfl rfl
  | @created actor request idempotencyKey id e o operations outbox hw ho =>
    obtain ⟨htenant, huser⟩ := hled.2 o rfl
    refine .operation o.stored _ (Operations.insert_operations hw) (Outbox.enqueue_records ho) ?_
    exact ⟨rfl, rfl, htenant.symm, rfl, rfl, congrArg Uuid.str huser.symm⟩

theorem adds_run {s s' : Authorization.State} (h : Authorization.Inv d s)
    {a : ReadCommitted.Action Commands.Start Unit} (hstep : s.run host a = some s') :
    Adds s.database s'.database := by
  obtain ⟨commands, hcommands, rfl⟩ := Option.map_eq_some_iff.mp hstep
  cases Protocol.step_cases hcommands with
  | commit hi hc => exact adds_commit (h.running _ _ hi) (Commands.commits_of_commit hc)
  | _ => exact .of_same rfl rfl

theorem adds_step {s s' : Authorization.State} (h : Authorization.Inv d s) {a : Authorization.Action}
    (hstep : Authorization.step d host a s = some s') : Adds s.database s'.database := by
  cases a with
  | web a =>
    obtain ⟨w, -, rfl⟩ := Option.map_eq_some_iff.mp hstep
    exact .of_same rfl rfl
  | command i browser credentials correlationId identityHost c =>
    simp only [Authorization.step] at hstep
    split at hstep
    · cases hstep
      exact .of_same rfl rfl
    · exact (adds_run (h.ask browser credentials identityHost) hstep).before rfl rfl
  | statement i | commit i | abort i => exact adds_run h hstep

end Adds

/-! ### The outbox as the relays have it -/

/-- What an action adds to the outbox. -/
def enqueued : Relay.Action → List AuditEvent
  | .enqueue event _ _ _ => [event]
  | _ => []

/-- Whatever is written to a record, its event stays. -/
theorem payloads_step {a : Relay.Action} {s t : Relay.State} (hs : Relay.step a s = some t) :
    (t.rows.map fun row => row.record.payload) = (s.rows.map fun row => row.record.payload) ++ enqueued a := by
  have updated : ∀ {u : Relay.State} {id : Uuid} {f : Relay.Row → Relay.Row}, Relay.Keeps f →
      ((u.update id f).rows.map fun row => row.record.payload) =
        (u.rows.map fun row => row.record.payload) ++ [] := by
    intro u id f hf
    rw [Relay.map_update _ hf.payload, List.append_nil]
  cases Relay.next_of_step hs with
  | enqueue => exact List.map_append
  | commitClaim => exact updated (Relay.keeps_granted _ _ _ _)
  | commitOutcome => exact updated (Relay.keeps_settled _ _ _ _)
  | _ => exact (List.append_nil _).symm

section Outbox
variable {auditHost : Audit.Host} {s t : Delivery.State}

theorem events_step {a : Delivery.Action} (hs : Delivery.step auditHost a s = some t) (ha : inserts a = false) :
    events t = events s := by
  cases a with
  | tick time =>
    obtain rfl := Option.some.inj hs
    rfl
  | relay a =>
    simp only [Delivery.step] at hs
    split_ifs at hs
    obtain ⟨relay, hrelay, rfl⟩ := Option.map_eq_some_iff.mp hs
    have hnone : enqueued a = [] := by
      cases a with
      | enqueue => cases ha
      | _ => rfl
    show (relay.rows.map fun row => row.record.payload) = events s
    rw [payloads_step hrelay, hnone, List.append_nil, events]
  | post w =>
    simp only [Delivery.step] at hs
    split at hs
    · obtain ⟨audit, -, rfl⟩ := Option.map_eq_some_iff.mp hs
      rfl
    · cases hs
  | ingest i m =>
    obtain ⟨audit, -, rfl⟩ := Option.map_eq_some_iff.mp hs
    rfl

theorem insert_spec {event : AuditEvent} {id : Uuid} {availableAt createdAt : Instant}
    (hs : insert auditHost event id availableAt createdAt s = some t) :
    events t = events s ++ [event] ∧ t.audit = s.audit := by
  simp only [insert, Delivery.step] at hs
  split_ifs at hs
  obtain ⟨relay, hrelay, rfl⟩ := Option.map_eq_some_iff.mp hs
  exact ⟨payloads_step hrelay, rfl⟩

theorem insertAll_spec {records : List OutboxRecord} (h : Delivery.Inv auditHost s)
    (hs : insertAll auditHost records s = some t) :
    Delivery.Inv auditHost t ∧ events t = events s ++ records.map OutboxRecord.payload ∧ t.audit = s.audit := by
  induction records generalizing s with
  | nil =>
    obtain rfl := Option.some.inj hs
    exact ⟨h, (List.append_nil _).symm, rfl⟩
  | cons r rest ih =>
    obtain ⟨u, hu, hrest⟩ := Option.bind_eq_some_iff.mp hs
    obtain ⟨hevents, haudit⟩ := insert_spec hu
    obtain ⟨hinv, hmore, hkept⟩ := ih (h.step hu) hrest
    refine ⟨hinv, ?_, hkept.trans haudit⟩
    rw [hmore, hevents, List.append_assoc]
    rfl

/-- Inserting what is about no operation tells nothing. -/
theorem told_append_others {new : List AuditEvent} (hevents : events t = events s ++ new)
    (hothers : ∀ e ∈ new, e.entityType ≠ "operation") : told t = told s := by
  have hnone : new.filter (fun e => e.entityType = "operation") = [] :=
    List.filter_eq_nil_iff.mpr fun e he => by simpa using hothers e he
  rw [told, hevents, List.filter_append, hnone, List.append_nil, told]

theorem told_snoc {e : AuditEvent} (hevents : events t = events s ++ [e]) (he : e.entityType = "operation") :
    told t = told s ++ [e] := by
  have hone : [e].filter (fun e => e.entityType = "operation") = [e] := by simp [he]
  rw [told, hevents, List.filter_append, hone, told]

end Outbox

/-! ### The rows of the trail -/

/-- The row is the event's. -/
def Written (e : AuditEvent) (log : Audit.AuditLog) : Prop :=
  ∃ previousHash id occurredAt now, log = Audit.auditLog e previousHash id occurredAt now

/-- Every row is an event's that was in the outbox. -/
def Logged (s : Delivery.State) : Prop := ∀ log ∈ s.audit.tables.logs, ∃ e ∈ events s, Written e log

theorem Written.key {e : AuditEvent} {log : Audit.AuditLog} (h : Written e log) :
    log.uqAuditEvent = (e.tenantId, e.id) := by
  obtain ⟨previousHash, id, occurredAt, now, rfl⟩ := h
  rfl

section Rows
variable {auditHost : Audit.Host} {s t : Delivery.State}

theorem mem_events {e : AuditEvent} : e ∈ events s ↔ Delivery.Carried s e := List.mem_map

/-- What an ingest transaction commits is the row of its event. -/
theorem Logged.ingest (h : Logged s) (hinv : Delivery.Inv auditHost s) {a : Audit.Ingest.Action}
    {audit : Audit.Ingest.State} (hs : Audit.Ingest.step auditHost a s.audit = some audit) :
    Logged {s with audit := audit} := by
  intro log hlog
  rcases Audit.Ingest.log_of_step hs hlog with hlog | ⟨i, txn, activity, htxn, hp⟩
  · exact h log hlog
  · have hcurrent := hinv.audit.current i txn htxn
    rw [Audit.Ingest.Current, hp] at hcurrent
    obtain ⟨⟨id, activityId, hrows⟩, -⟩ := hcurrent
    obtain ⟨-, user, occurredAt, -, -, hwritten, -⟩ := Audit.ingestRows_eq_some.mp hrows
    exact ⟨txn.event, mem_events.mpr (hinv.carried i txn htxn), _, id, occurredAt, _, hwritten⟩

theorem Logged.step (h : Logged s) (hinv : Delivery.Inv auditHost s) {a : Delivery.Action}
    (hs : Delivery.step auditHost a s = some t) (ha : inserts a = false) : Logged t := by
  have hevents := events_step hs ha
  cases a with
  | tick time =>
    obtain rfl := Option.some.inj hs
    exact h
  | relay a =>
    simp only [Delivery.step] at hs
    split_ifs at hs
    obtain ⟨relay, -, rfl⟩ := Option.map_eq_some_iff.mp hs
    intro log hlog
    rw [hevents]
    exact h log hlog
  | post w =>
    simp only [Delivery.step] at hs
    split at hs
    · obtain ⟨audit, haudit, rfl⟩ := Option.map_eq_some_iff.mp hs
      exact h.ingest hinv haudit
    · cases hs
  | ingest i m =>
    obtain ⟨audit, haudit, rfl⟩ := Option.map_eq_some_iff.mp hs
    exact h.ingest hinv haudit

theorem Logged.insert (h : Logged s) {new : List AuditEvent} (hevents : events t = events s ++ new)
    (haudit : t.audit = s.audit) : Logged t := by
  intro log hlog
  rw [haudit] at hlog
  obtain ⟨e, he, hwritten⟩ := h log hlog
  exact ⟨e, hevents ▸ List.mem_append_left _ he, hwritten⟩

end Rows

/-! ### The invariant -/

structure Inv (d : Deployment) (auditHost : Audit.Host) (s : State) : Prop where
  services : Authorization.Inv d s.services
  delivery : Delivery.Inv auditHost s.delivery
  logged : Logged s.delivery
  /-- One event for each operation, in their order. -/
  operations : List.Forall₂ Tells s.services.database.operations.operations (told s.delivery)

section Inv
variable {d : Deployment} {host : Inventory.Host} {auditHost : Audit.Host} {s s' : State}

theorem inv_initial (d : Deployment) (auditHost : Audit.Host) (now : Nat) : Inv d auditHost (initial now) where
  services := Authorization.inv_initial d now
  delivery := Delivery.inv_initial
  logged := fun _ hlog => by cases hlog
  operations := .nil

/-- The relays insert what the transaction did. -/
theorem Inv.services_step (h : Inv d auditHost s) {a : Authorization.Action} {services : Authorization.State}
    (hs : Authorization.step d host a s.services = some services) {delivery : Delivery.State}
    (hinsert : insertAll auditHost (inserted s.services services) s.delivery = some delivery) :
    Inv d auditHost ⟨services, delivery⟩ := by
  obtain ⟨hdelivery, hevents, haudit⟩ := insertAll_spec h.delivery hinsert
  refine ⟨Authorization.inv_step h.services hs, hdelivery, h.logged.insert hevents haudit, ?_⟩
  cases adds_step h.services hs with
  | others new hoperations hrecords hothers =>
    rw [inserted, hrecords, List.drop_left] at hevents
    show List.Forall₂ Tells services.database.operations.operations (told delivery)
    rw [hoperations, told_append_others hevents (List.forall_mem_map.mpr hothers)]
    exact h.operations
  | operation o r hoperations hrecords htells =>
    rw [inserted, hrecords, List.drop_left] at hevents
    show List.Forall₂ Tells services.database.operations.operations (told delivery)
    rw [hoperations, told_snoc hevents htells.entityType]
    exact List.rel_append h.operations (.cons htells .nil)

theorem inv_step {a : Action} (h : Inv d auditHost s) (hstep : step d host auditHost a s = some s') :
    Inv d auditHost s' := by
  cases a with
  | services a =>
    obtain ⟨services, hservices, hrest⟩ := Option.bind_eq_some_iff.mp hstep
    obtain ⟨delivery, hdelivery, rfl⟩ := Option.map_eq_some_iff.mp hrest
    exact h.services_step hservices hdelivery
  | other event e =>
    simp only [step] at hstep
    split_ifs at hstep with hother
    obtain ⟨delivery, hdelivery, rfl⟩ := Option.map_eq_some_iff.mp hstep
    obtain ⟨hevents, haudit⟩ := insert_spec hdelivery
    refine ⟨h.services, h.delivery.step hdelivery, h.logged.insert hevents haudit, ?_⟩
    show List.Forall₂ Tells _ (told delivery)
    rw [told_append_others hevents (List.forall_mem_singleton.mpr hother)]
    exact h.operations
  | delivery a =>
    simp only [step] at hstep
    split_ifs at hstep with hinserts
    obtain ⟨delivery, hdelivery, rfl⟩ := Option.map_eq_some_iff.mp hstep
    have hquiet : inserts a = false := by simpa using hinserts
    refine ⟨h.services, h.delivery.step hdelivery, h.logged.step h.delivery hdelivery hquiet, ?_⟩
    show List.Forall₂ Tells _ (told delivery)
    rw [told, events_step hdelivery hquiet]
    exact h.operations

end Inv

/-! ### The timeline -/

/-- The row is about the operation. -/
def About (tenantId operationId : Uuid) (log : Audit.AuditLog) : Prop :=
  log.tenantId = tenantId ∧ log.entityType = "operation" ∧ log.entityId = some operationId.str

instance (tenantId operationId : Uuid) : DecidablePred (About tenantId operationId) := fun log => by
  unfold About; infer_instance

theorem isEmpty_str (id : Uuid) : id.str.isEmpty = false := by
  rw [String.isEmpty_eq_false_iff]
  intro h
  have hnil : Uuid.hyphenate (Digits.fixed 16 32 id.toNat) = [] := by
    simpa [Uuid.str] using congrArg String.toList h
  simp [Uuid.hyphenate] at hnil

/-- What the query filters by. -/
theorem rows_about (tenantId operationId : Uuid) (logs : List Audit.AuditLog) :
    (Audit.ofTenant tenantId logs).filter
        (Audit.Search.admits ⟨none, none, none, none, some "operation", some operationId.str, none, none, 1000⟩) =
      logs.filter fun log => About tenantId operationId log := by
  rw [Audit.ofTenant, List.filter_filter]
  refine List.filter_congr fun log _ => ?_
  have hname : "operation".isEmpty = false := by decide
  rw [Bool.eq_iff_iff, decide_eq_true_iff, About]
  simp only [Audit.Search.admits, Audit.asked, isEmpty_str, hname, Option.all_none, Bool.true_and, Bool.and_true,
    Bool.false_or, Bool.and_eq_true, beq_iff_eq, decide_eq_true_eq]
  tauto

theorem timeline_length (tenantId operationId : Uuid) (s : Audit.Tables) :
    (operationTimeline tenantId operationId s).length =
      min 1000 (s.logs.filter fun log => About tenantId operationId log).length := by
  simp only [operationTimeline, Audit.search, rows_about, List.length_reverse, List.length_take,
    (Query.orderBy_perm _).length_eq]

theorem mem_timeline {tenantId operationId : Uuid} {s : Audit.Tables} {log : Audit.AuditLog}
    (h : log ∈ operationTimeline tenantId operationId s) : log ∈ s.logs ∧ About tenantId operationId log := by
  have hmem := List.mem_of_mem_take (List.mem_reverse.mp h)
  rw [(Query.orderBy_perm _).mem_iff, rows_about] at hmem
  simpa using hmem

/-! ### What it tells -/

section Truth
variable {d : Deployment} {auditHost : Audit.Host} {s : State}

/-- A row about an operation is an event's that tells of one. -/
theorem told_of_about (h : Inv d auditHost s) {tenantId operationId : Uuid} {log : Audit.AuditLog}
    (hlog : log ∈ s.delivery.audit.tables.logs) (habout : About tenantId operationId log) :
    ∃ e ∈ told s.delivery, Written e log ∧ e.tenantId = tenantId ∧ e.entityId = some operationId.str := by
  obtain ⟨e, he, hwritten⟩ := h.logged log hlog
  obtain ⟨previousHash, id, occurredAt, now, rfl⟩ := id hwritten
  obtain ⟨htenant, htype, hid⟩ := habout
  exact ⟨e, List.mem_filter.mpr ⟨he, decide_eq_true htype⟩, hwritten, htenant, hid⟩

/-- No two events tell of one operation. -/
theorem told_unique (h : Inv d auditHost s) : Table.Unique AuditEvent.entityId (told s.delivery) := by
  have hsame : (told s.delivery).map AuditEvent.entityId =
      s.services.database.operations.operations.map fun o => some o.id.str := by
    have hpairs := h.operations
    generalize s.services.database.operations.operations = operations, told s.delivery = events at hpairs
    induction hpairs with
    | nil => rfl
    | cons htells _ ih => rw [List.map_cons, List.map_cons, ih, htells.entityId]
  rw [Table.Unique, hsame]
  exact s.services.database.operations.ids.finer fun o p heq => Uuid.str_inj (Option.some.inj heq)

/-- All rows about an operation are of one event, and that has one. -/
theorem about_le_one (h : Inv d auditHost s) (tenantId operationId : Uuid) :
    (s.delivery.audit.tables.logs.filter fun log => About tenantId operationId log).length ≤ 1 := by
  have hunique : Table.Unique Audit.AuditLog.uqAuditEvent
      (s.delivery.audit.tables.logs.filter fun log => About tenantId operationId log) :=
    h.delivery.deduplicated.logs.sublist (List.filter_sublist.map _)
  refine hunique.length_le_one fun log hlog other hother => ?_
  obtain ⟨hlog, habout⟩ := List.mem_filter.mp hlog
  obtain ⟨hother, habout'⟩ := List.mem_filter.mp hother
  obtain ⟨e, he, hwritten, -, hid⟩ := told_of_about h hlog (of_decide_eq_true habout)
  obtain ⟨e', he', hwritten', -, hid'⟩ := told_of_about h hother (of_decide_eq_true habout')
  obtain rfl := (told_unique h).eq he he' (hid.trans hid'.symm)
  exact hwritten.key.trans hwritten'.key.symm

/-- The event of an operation took effect: there is a row about the operation. -/
theorem about_of_ingested (h : Inv d auditHost s) {o : Operations.Operation} {e : AuditEvent}
    (he : e ∈ events s.delivery) (htells : Tells o e) (hingested : Delivery.Ingested s.delivery e) :
    ∃ log ∈ s.delivery.audit.tables.logs, About o.tenantId o.id log := by
  obtain ⟨log, hlog, hkey⟩ := hingested
  obtain ⟨e', he', hwritten⟩ := h.logged log hlog
  obtain rfl := Delivery.carried_unique h.delivery (mem_events.mp he) (mem_events.mp he')
    (hkey.symm.trans hwritten.key)
  obtain ⟨previousHash, id, occurredAt, now, rfl⟩ := hwritten
  exact ⟨_, hlog, htells.tenantId, htells.entityType, htells.entityId⟩

/-- What the audit service says about operations. -/
structure Truthful (s : State) : Prop where
  /-- An administrator of the tenant requested what a timeline tells of. -/
  sound : ∀ tenantId operationId, ∀ log ∈ operationTimeline tenantId operationId s.delivery.audit.tables,
    ∃ o ∈ s.services.database.operations.operations, o.tenantId = tenantId ∧ o.id = operationId ∧
      log.action = "operation.create" ∧ log.actorType = "user" ∧ log.actorId = o.requestedBy.str ∧
      Administers s.services.database.identity tenantId o.requestedBy
  once : ∀ tenantId operationId, (operationTimeline tenantId operationId s.delivery.audit.tables).length ≤ 1
  /-- Each operation has a record in the outbox, and a row once that is published. -/
  complete : ∀ o ∈ s.services.database.operations.operations, ∃ row ∈ s.delivery.relay.rows,
    Tells o row.record.payload ∧ (row.record.status = .published →
      (operationTimeline o.tenantId o.id s.delivery.audit.tables).length = 1)

theorem sound_of_inv (h : Inv d auditHost s) {tenantId operationId : Uuid} {log : Audit.AuditLog}
    (hlog : log ∈ operationTimeline tenantId operationId s.delivery.audit.tables) :
    ∃ o ∈ s.services.database.operations.operations, o.tenantId = tenantId ∧ o.id = operationId ∧
      log.action = "operation.create" ∧ log.actorType = "user" ∧ log.actorId = o.requestedBy.str ∧
      Administers s.services.database.identity tenantId o.requestedBy := by
  obtain ⟨hmem, habout⟩ := mem_timeline hlog
  obtain ⟨e, he, hwritten, htenant, hid⟩ := told_of_about h hmem habout
  obtain ⟨o, ho, htells⟩ := Table.exists_left h.operations e he
  obtain ⟨previousHash, id, occurredAt, now, rfl⟩ := hwritten
  have htenant : o.tenantId = tenantId := htells.tenantId.symm.trans htenant
  refine ⟨o, ho, htenant, ?_, htells.action, htells.actorType, htells.actorId, ?_⟩
  · exact Uuid.str_inj (Option.some.inj (htells.entityId.symm.trans hid))
  · exact htenant ▸ h.services.requested.operations o ho

theorem truthful_of_inv (h : Inv d auditHost s) : Truthful s where
  sound := fun _ _ _ hlog => sound_of_inv h hlog
  once := fun tenantId operationId => by
    rw [timeline_length]
    exact (Nat.min_le_right ..).trans (about_le_one h tenantId operationId)
  complete := by
    intro o ho
    obtain ⟨e, he, htells⟩ := Table.exists_right h.operations o ho
    have hevent := (List.mem_filter.mp he).1
    obtain ⟨row, hrow, rfl⟩ := mem_events.mp hevent
    refine ⟨row, hrow, htells, fun hpublished => ?_⟩
    obtain ⟨log, hlog, habout⟩ := about_of_ingested h hevent htells (h.delivery.published row hrow hpublished)
    have hone : (s.delivery.audit.tables.logs.filter fun log => About o.tenantId o.id log).length = 1 :=
      Nat.le_antisymm (about_le_one h o.tenantId o.id)
        (List.length_pos_of_mem (List.mem_filter.mpr ⟨hlog, decide_eq_true habout⟩))
    rw [timeline_length, hone]
    rfl

end Truth

/-- **The trail tells who requested each operation**: whatever browsers, the services, relays
and ingest transactions do, and in whatever order, the timeline of an operation is one row at
most, it names an administrator of the tenant who requested that operation, and it is there
once the operation's record is published. -/
theorem timeline_truthful (d : Deployment) (host : Inventory.Host) (auditHost : Audit.Host) (now : Nat)
    (actions : List Action) : Always (step d host auditHost) Truthful actions (initial now) :=
  (Always.of_invariant actions (inv_initial d auditHost now) fun _ _ _ => inv_step).mono fun _ => truthful_of_inv

end Sentinel.Trail
