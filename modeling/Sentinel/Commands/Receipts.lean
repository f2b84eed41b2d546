import Sentinel.Commands.Transactions
import Sentinel.Library.PyValue

/-! The receipts of logins: `LoginBlobRecorder`, and the callbacks of one process that use it.

After its commit a callback asks the recorder for a receipt. The first one creates the
container, under a lock and a flag read twice; each then makes a document and uploads it.
An error on the way is logged, and the login goes on. The callback passes its correlation id
as the UUID of the request, which no JSON document takes, so there never is a receipt
(`receipts_iff`). With the text of the id there would be one for each login
(`receipts_of_text`). -/
namespace Sentinel.Commands.Receipts
open Library Common Transition
open Identity (Tenant User AccountType)
open Identity.Transactions (Login AtConnection)

/-! ### The recorder -/

def accountTypeText : AccountType → String
  | .organization => "organization"
  | .personal => "personal"

/-- The document of `record_login`. -/
def document (tenant : Tenant) (user : User) (correlationId : PyValue) (occurredAt : Timestamp) :
    List (String × PyValue) := [
  ("schema_version", .int 1),
  ("event_type", .str "identity.login.succeeded"),
  ("occurred_at", .str (String.ofList (Datetime.utc occurredAt).isoformat)),
  ("correlation_id", correlationId),
  ("tenant", .dict [
    ("id", .str tenant.id.str),
    ("entra_tenant_id", .str tenant.entraTenantId.str),
    ("account_type", .str (accountTypeText tenant.accountType))]),
  ("user", .dict [
    ("id", .str user.id.str),
    ("entra_object_id", .str user.entraObjectId.str)])]

/-- `login-events/{date}/{time}-{user}-{id}.json`. -/
def blobName (user : User) (occurredAt : Timestamp) (id : Uuid) : String :=
  let date := (Datetime.dateText (occurredAt / Datetime.day)).map fun c => if c = '-' then '/' else c
  let time := occurredAt % Datetime.day
  let clock := Datetime.twoDigits (time / Datetime.hour) ++ Datetime.twoDigits (time / Datetime.minute % 60) ++
    Datetime.twoDigits (time / Datetime.second % 60)
  "login-events/" ++ String.ofList date ++ "/" ++ String.ofList clock ++ "-" ++ user.id.str ++ "-" ++ id.str ++
    ".json"

structure Blob where
  name : String
  data : String

/-- What `record_login` uploads. -/
def receipt (tenant : Tenant) (user : User) (correlationId : PyValue) (occurredAt : Timestamp) (id : Uuid) :
    Except String Blob :=
  (PyValue.dict (document tenant user correlationId occurredAt)).dumps.map fun data =>
    ⟨blobName user occurredAt id, data⟩

/-- The blob is a JSON document with this correlation id. -/
def IsReceipt (correlationId : Uuid) (blob : Blob) : Prop :=
  ∃ members, blob.data = String.ofList (Json.dumps (.obj members)) ∧
    members.lookup "correlation_id" = some (.str correlationId.str)

/-- A document with an id that is no text is not made. -/
theorem receipt_uuid (tenant : Tenant) (user : User) (correlationId : Uuid) (occurredAt : Timestamp) (id : Uuid) :
    ∃ message, receipt tenant user (.uuid correlationId) occurredAt id = .error message := by
  have hmem : ("correlation_id", PyValue.uuid correlationId) ∈
      document tenant user (.uuid correlationId) occurredAt := by simp [document]
  obtain ⟨message, hdict⟩ := PyValue.toJson_dict_error hmem rfl
  refine ⟨message, ?_⟩
  rw [receipt, PyValue.dumps, hdict]
  rfl

/-- A document with a text for an id is made, and has that text. -/
theorem receipt_text (tenant : Tenant) (user : User) (correlationId : Uuid) (occurredAt : Timestamp) (id : Uuid) :
    ∃ blob, receipt tenant user (.str correlationId.str) occurredAt id = .ok blob ∧
      IsReceipt correlationId blob := by
  refine ⟨_, rfl, ?_⟩
  exact ⟨_, rfl, rfl⟩

/-! ### The callbacks of a process -/

/-- A login whose transaction has committed. -/
structure Recorded where
  tenant : Tenant
  user : User
  /-- `request.state.correlation_id`. -/
  correlationId : Uuid
  event : AuditEvent

/-- How far a callback is. -/
inductive Stage where
  /-- Up to the end of its transaction. -/
  | serving (correlationId : Uuid)
  | rejected
  | committed (r : Recorded)
  /-- At the lock of `_ensure_container`. -/
  | waiting (r : Recorded)
  | locked (r : Recorded)
  | creating (r : Recorded)
  | ensured (r : Recorded)
  | uploading (r : Recorded) (blob : Blob)
  /-- `record_login` is over, whatever came of it. -/
  | recorded (r : Recorded)

structure Process where
  system : ReadCommitted.System Database Txn
  callbacks : Nat → Option Stage
  /-- `_container_ready`. -/
  ready : Bool
  /-- Who holds `_container_lock`. -/
  lock : Option Nat
  /-- How often the container was created. -/
  creations : Nat
  /-- The blobs of the container, each with the callback that uploaded it. -/
  uploads : List (Nat × Blob)

/-- A process that starts. -/
def Process.boot (db : Database) : Process := ⟨.idle db, fun _ => none, false, none, 0, []⟩

def Process.move (s : Process) (i : Nat) (stage : Stage) : Process :=
  {s with callbacks := Function.update s.callbacks i (some stage)}

def Process.uploadsOf (s : Process) (i : Nat) : List Blob := (s.uploads.filter fun u => u.1 = i).map Prod.snd

/-- `CorrelationMiddleware`: the id of the header if it is one, and else a fresh one. `parse` is
`UUID(text)`. -/
def correlate (parse : String → Option Uuid) (header : Option String) (fresh : Uuid) : Uuid :=
  match header with
  | some text => if text = "" then fresh else (parse text).getD fresh
  | none => fresh

inductive Action where
  /-- A callback arrives; its transaction begins. -/
  | request (i : Nat) (header : Option String) (fresh : Uuid) (login : Login) (tokenAuthority encrypted : String)
      (e : Envelope)
  /-- Any transaction goes on, one of this process's or another's. -/
  | database (a : ReadCommitted.Action Start Unit)
  /-- The first look at the flag. -/
  | check (i : Nat)
  | acquire (i : Nat)
  /-- The second look. -/
  | recheck (i : Nat)
  | create (i : Nat)
  | serialize (i : Nat) (occurredAt : Timestamp) (id : Uuid)
  | upload (i : Nat)

/-- Where the callbacks are after a step of the database. -/
def Process.settle (s : Process) : ReadCommitted.Action Start Unit → Nat → Option Stage
  | .commit i =>
    match s.callbacks i, s.system.running i with
    | some (.serving correlationId), some (.callback _ _ _ eventId e (.connected c)) =>
      (s.move i (.committed ⟨c.tenant.row, c.user.row, correlationId, userSynchronized c eventId e⟩)).callbacks
    | _, _ => s.callbacks
  | .abort i =>
    match s.callbacks i with
    | some (.serving _) => (s.move i .rejected).callbacks
    | _ => s.callbacks
  | _ => s.callbacks

section Step
variable (host : Inventory.Host) (parse : String → Option Uuid) (passed : Uuid → PyValue)

/-- `passed` is what the callback gives the recorder for its correlation id. -/
def step (action : Action) (s : Process) : Option Process :=
  match action with
  | .request i header fresh login tokenAuthority encrypted e =>
    match s.callbacks i with
    | none =>
      let correlationId := correlate parse header fresh
      ((protocol host).step (.begin i (.callback login tokenAuthority encrypted correlationId e)) s.system).map
        fun system => {s.move i (.serving correlationId) with system := system}
    | some _ => none
  | .database a =>
    ((protocol host).step a s.system).map fun system => {s with system := system, callbacks := s.settle a}
  | .check i =>
    match s.callbacks i with
    | some (.committed r) => some (s.move i (if s.ready then .ensured r else .waiting r))
    | _ => none
  | .acquire i =>
    match s.callbacks i, s.lock with
    | some (.waiting r), none => some {s.move i (.locked r) with lock := some i}
    | _, _ => none
  | .recheck i =>
    match s.callbacks i with
    | some (.locked r) =>
      some (if s.ready then {s.move i (.ensured r) with lock := none} else s.move i (.creating r))
    | _ => none
  | .create i =>
    match s.callbacks i with
    | some (.creating r) =>
      some {s.move i (.ensured r) with ready := true, lock := none, creations := s.creations + 1}
    | _ => none
  | .serialize i occurredAt id =>
    match s.callbacks i with
    | some (.ensured r) =>
      match receipt r.tenant r.user (passed r.correlationId) occurredAt id with
      | .ok blob => some (s.move i (.uploading r blob))
      | .error _ => some (s.move i (.recorded r))
    | _ => none
  | .upload i =>
    match s.callbacks i with
    | some (.uploading r blob) => some {s.move i (.recorded r) with uploads := s.uploads ++ [(i, blob)]}
    | _ => none

end Step

/-- The source passes the UUID of the request. -/
def callbackPasses (correlationId : Uuid) : PyValue := .uuid correlationId

/-- Each login that was recorded has one receipt, with the correlation id of its audit event;
no other callback has any, and the container was created once at most. -/
structure Receipted (s : Process) : Prop where
  recorded : ∀ i r, s.callbacks i = some (.recorded r) →
    ∃ blob, s.uploadsOf i = [blob] ∧ IsReceipt r.event.correlationId blob
  others : ∀ i, (∀ r, s.callbacks i ≠ some (.recorded r)) → s.uploadsOf i = []
  once : s.creations ≤ 1

/-- The step is not one at which a callback makes its document. -/
def Undocumented (_ : Process) (a : Action) (_ : Process) : Prop :=
  match a with
  | .serialize _ _ _ => False
  | _ => True

/-! ### What a step does -/

section Steps
variable (host : Inventory.Host) (parse : String → Option Uuid) (passed : Uuid → PyValue)

inductive Step (s : Process) : Action → Process → Prop
  | request {i : Nat} {header : Option String} {fresh : Uuid} {login : Login} {tokenAuthority encrypted : String}
      {e : Envelope} {system : ReadCommitted.System Database Txn} (hstage : s.callbacks i = none)
      (hsystem : (protocol host).step
        (.begin i (.callback login tokenAuthority encrypted (correlate parse header fresh) e)) s.system =
          some system) :
      Step s (.request i header fresh login tokenAuthority encrypted e)
        {s.move i (.serving (correlate parse header fresh)) with system := system}
  | commits {i : Nat} {correlationId eventId : Uuid} {login : Login} {tokenAuthority encrypted : String}
      {e : Envelope} {c : AtConnection} {system : ReadCommitted.System Database Txn}
      (hstage : s.callbacks i = some (.serving correlationId))
      (hrunning : s.system.running i = some (.callback login tokenAuthority encrypted eventId e (.connected c)))
      (hsystem : (protocol host).step (.commit i) s.system = some system) :
      Step s (.database (.commit i))
        {s.move i (.committed ⟨c.tenant.row, c.user.row, correlationId, userSynchronized c eventId e⟩) with
          system := system}
  | aborts {i : Nat} {correlationId : Uuid} {system : ReadCommitted.System Database Txn}
      (hstage : s.callbacks i = some (.serving correlationId))
      (hsystem : (protocol host).step (.abort i) s.system = some system) :
      Step s (.database (.abort i)) {s.move i .rejected with system := system}
  | other {a : ReadCommitted.Action Start Unit} {system : ReadCommitted.System Database Txn}
      (hsame : s.settle a = s.callbacks) (hsystem : (protocol host).step a s.system = some system) :
      Step s (.database a) {s with system := system}
  | found {i : Nat} {r : Recorded} (hstage : s.callbacks i = some (.committed r)) (hready : s.ready = true) :
      Step s (.check i) (s.move i (.ensured r))
  | missing {i : Nat} {r : Recorded} (hstage : s.callbacks i = some (.committed r)) (hready : s.ready = false) :
      Step s (.check i) (s.move i (.waiting r))
  | acquire {i : Nat} {r : Recorded} (hstage : s.callbacks i = some (.waiting r)) (hlock : s.lock = none) :
      Step s (.acquire i) {s.move i (.locked r) with lock := some i}
  | refound {i : Nat} {r : Recorded} (hstage : s.callbacks i = some (.locked r)) (hready : s.ready = true) :
      Step s (.recheck i) {s.move i (.ensured r) with lock := none}
  | creates {i : Nat} {r : Recorded} (hstage : s.callbacks i = some (.locked r)) (hready : s.ready = false) :
      Step s (.recheck i) (s.move i (.creating r))
  | created {i : Nat} {r : Recorded} (hstage : s.callbacks i = some (.creating r)) :
      Step s (.create i) {s.move i (.ensured r) with ready := true, lock := none, creations := s.creations + 1}
  | serialized {i : Nat} {r : Recorded} {occurredAt : Timestamp} {id : Uuid} {blob : Blob}
      (hstage : s.callbacks i = some (.ensured r))
      (hblob : receipt r.tenant r.user (passed r.correlationId) occurredAt id = .ok blob) :
      Step s (.serialize i occurredAt id) (s.move i (.uploading r blob))
  | swallowed {i : Nat} {r : Recorded} {occurredAt : Timestamp} {id : Uuid} {message : String}
      (hstage : s.callbacks i = some (.ensured r))
      (hblob : receipt r.tenant r.user (passed r.correlationId) occurredAt id = .error message) :
      Step s (.serialize i occurredAt id) (s.move i (.recorded r))
  | uploaded {i : Nat} {r : Recorded} {blob : Blob} (hstage : s.callbacks i = some (.uploading r blob)) :
      Step s (.upload i) {s.move i (.recorded r) with uploads := s.uploads ++ [(i, blob)]}

variable {host parse passed}

theorem settle_cases {a : ReadCommitted.Action Start Unit} {s : Process}
    {system : ReadCommitted.System Database Txn} (hsystem : (protocol host).step a s.system = some system) :
    Step host parse passed s (.database a) {s with system := system, callbacks := s.settle a} := by
  cases a with
  | begin i r => exact .other rfl hsystem
  | statement i u => exact .other rfl hsystem
  | commit i =>
    have hsame : s.settle (.commit i) = s.callbacks → Step host parse passed s (.database (.commit i))
        {s with system := system, callbacks := s.settle (.commit i)} := by
      intro heq
      rw [heq]
      exact .other heq hsystem
    cases hstage : s.callbacks i with
    | none => exact hsame (by simp [Process.settle, hstage])
    | some stage =>
      cases stage with
      | serving correlationId =>
        cases hrunning : s.system.running i with
        | none => exact hsame (by simp [Process.settle, hrunning])
        | some t =>
          cases t with
          | callback login tokenAuthority encrypted eventId e onboarding =>
            cases onboarding with
            | connected c =>
              have hsettle : s.settle (.commit i) = (s.move i (.committed
                  ⟨c.tenant.row, c.user.row, correlationId, userSynchronized c eventId e⟩)).callbacks := by
                simp [Process.settle, hstage, hrunning]
              rw [hsettle]
              exact .commits hstage hrunning hsystem
            | _ => exact hsame (by simp [Process.settle, hrunning])
          | _ => exact hsame (by simp [Process.settle, hrunning])
      | _ => exact hsame (by simp [Process.settle, hstage])
  | abort i =>
    have hsame : s.settle (.abort i) = s.callbacks → Step host parse passed s (.database (.abort i))
        {s with system := system, callbacks := s.settle (.abort i)} := by
      intro heq
      rw [heq]
      exact .other heq hsystem
    cases hstage : s.callbacks i with
    | none => exact hsame (by simp [Process.settle, hstage])
    | some stage =>
      cases stage with
      | serving correlationId =>
        have hsettle : s.settle (.abort i) = (s.move i .rejected).callbacks := by
          simp [Process.settle, hstage]
        rw [hsettle]
        exact .aborts hstage hsystem
      | _ => exact hsame (by simp [Process.settle, hstage])

theorem step_cases {a : Action} {s t : Process} (h : step host parse passed a s = some t) :
    Step host parse passed s a t := by
  cases a with
  | request i header fresh login tokenAuthority encrypted e =>
    cases hstage : s.callbacks i with
    | none =>
      simp only [step, hstage] at h
      obtain ⟨system, hsystem, rfl⟩ := Option.map_eq_some_iff.mp h
      exact .request hstage hsystem
    | some stage => simp [step, hstage] at h
  | database a =>
    obtain ⟨system, hsystem, rfl⟩ := Option.map_eq_some_iff.mp h
    exact settle_cases hsystem
  | check i =>
    simp only [step] at h
    split at h
    case h_1 r hstage =>
      cases h
      cases hready : s.ready with
      | true => exact .found hstage hready
      | false => exact .missing hstage hready
    case h_2 => cases h
  | acquire i =>
    simp only [step] at h
    split at h
    case h_1 r hstage hlock =>
      cases h
      exact .acquire hstage hlock
    case h_2 => cases h
  | recheck i =>
    simp only [step] at h
    split at h
    case h_1 r hstage =>
      cases h
      cases hready : s.ready with
      | true => exact .refound hstage hready
      | false => exact .creates hstage hready
    case h_2 => cases h
  | create i =>
    simp only [step] at h
    split at h
    case h_1 r hstage =>
      cases h
      exact .created hstage
    case h_2 => cases h
  | serialize i occurredAt id =>
    simp only [step] at h
    split at h
    case h_1 r hstage =>
      cases hblob : receipt r.tenant r.user (passed r.correlationId) occurredAt id with
      | ok blob =>
        rw [hblob] at h
        cases h
        exact .serialized hstage hblob
      | error message =>
        rw [hblob] at h
        cases h
        exact .swallowed hstage hblob
    case h_2 => cases h
  | upload i =>
    simp only [step] at h
    split at h
    case h_1 r blob hstage =>
      cases h
      exact .uploaded hstage
    case h_2 => cases h

theorem move_callbacks (s : Process) (i j : Nat) (stage : Stage) :
    (s.move i stage).callbacks j = if j = i then some stage else s.callbacks j := by
  simp [Process.move, Function.update_apply]

/-- A callback that serves a request has a transaction, with the id of the request. -/
def Serves (s : Process) : Prop :=
  ∀ i correlationId, s.callbacks i = some (.serving correlationId) →
    ∃ login tokenAuthority encrypted e onboarding,
      s.system.running i = some (.callback login tokenAuthority encrypted correlationId e onboarding)

theorem callback_step {a : ReadCommitted.Action Start Unit} {system system' : ReadCommitted.System Database Txn}
    (hstep : (protocol host).step a system = some system') {i : Nat} {login : Login}
    {tokenAuthority encrypted : String} {correlationId : Uuid} {e : Envelope}
    {onboarding : Identity.Transactions.Onboarding}
    (hi : system.running i = some (.callback login tokenAuthority encrypted correlationId e onboarding)) :
    (∃ onboarding', system'.running i =
      some (.callback login tokenAuthority encrypted correlationId e onboarding')) ∨
    (∃ c, a = .commit i ∧ onboarding = .connected c) ∨ a = .abort i := by
  by_cases hindex : i = a.index
  · subst hindex
    cases ReadCommitted.Protocol.step_cases hstep with
    | begin hnone => cases hnone.symm.trans hi
    | statement hrunning hstatement =>
      obtain rfl := Option.some.inj (hrunning.symm.trans hi)
      obtain ⟨onboarding', -, rfl⟩ := Option.map_eq_some_iff.mp hstatement
      exact .inl ⟨onboarding', by simp [ReadCommitted.System.set_running, ReadCommitted.Action.index]⟩
    | commit hrunning hcommit =>
      obtain rfl := Option.some.inj (hrunning.symm.trans hi)
      cases onboarding with
      | connected c => exact .inr (.inl ⟨c, rfl, rfl⟩)
      | _ => cases hcommit
    | abort hrunning => exact .inr (.inr rfl)
  · exact .inl ⟨onboarding, (ReadCommitted.Protocol.step_running hstep hindex).trans hi⟩

/-- Moving a callback on leaves the other ones served. -/
theorem Serves.move {s : Process} (h : Serves s) {i : Nat} {stage : Stage}
    (hstage : ∀ correlationId, stage ≠ .serving correlationId) : Serves (s.move i stage) := by
  intro j correlationId hj
  rw [move_callbacks] at hj
  split_ifs at hj with hji
  · cases Option.some.inj hj
    exact absurd rfl (hstage correlationId)
  · exact h j correlationId hj

theorem serves_step {a : Action} {s t : Process} (h : Serves s) (hstep : Step host parse passed s a t) :
    Serves t := by
  have others : ∀ {action : ReadCommitted.Action Start Unit} {system : ReadCommitted.System Database Txn}
      {stage : Stage}, (protocol host).step action s.system = some system →
      (∀ correlationId, stage = .serving correlationId → ∃ login tokenAuthority encrypted e onboarding,
        system.running action.index = some (.callback login tokenAuthority encrypted correlationId e onboarding)) →
      Serves {s.move action.index stage with system := system} := by
    intro action system stage hsystem hnew j correlationId hj
    have hj : (s.move action.index stage).callbacks j = some (.serving correlationId) := hj
    rw [move_callbacks] at hj
    split_ifs at hj with hji
    · rw [hji]
      exact hnew correlationId (Option.some.inj hj)
    · show ∃ login tokenAuthority encrypted e onboarding, system.running j = _
      rw [ReadCommitted.Protocol.step_running hsystem hji]
      exact h j correlationId hj
  cases hstep with
  | @request i header fresh login tokenAuthority encrypted e system hstage hsystem =>
    refine others hsystem ?_
    rintro _ ⟨⟩
    refine ⟨login, tokenAuthority, encrypted, e, .begun, ?_⟩
    cases ReadCommitted.Protocol.step_cases hsystem with
    | begin hnone => simp [ReadCommitted.System.set_running, ReadCommitted.Action.index, protocol, Start.begin]
  | commits hstage hrunning hsystem => exact others hsystem (by simp)
  | aborts hstage hsystem => exact others hsystem (by simp)
  | other hsame hsystem =>
    intro j correlationId hj
    obtain ⟨login, tokenAuthority, encrypted, e, onboarding, hrunning⟩ := h j correlationId hj
    rcases callback_step hsystem hrunning with ⟨onboarding', hkept⟩ | ⟨c, rfl, rfl⟩ | rfl
    · exact ⟨login, tokenAuthority, encrypted, e, onboarding', hkept⟩
    · have hmoved := congrFun hsame j
      simp [Process.settle, show s.callbacks j = _ from hj, hrunning, move_callbacks] at hmoved
    · have hmoved := congrFun hsame j
      simp [Process.settle, show s.callbacks j = _ from hj, move_callbacks] at hmoved
  | found | missing | acquire | refound | creates | created | serialized | swallowed | uploaded =>
    exact h.move (by simp)

/-- The login of a callback that has committed. -/
def Stage.login : Stage → Option Recorded
  | .serving _ | .rejected => none
  | .committed r | .waiting r | .locked r | .creating r | .ensured r | .uploading r _ | .recorded r => some r

/-- Whether the callback has the lock. -/
def Stage.holds : Stage → Bool
  | .locked _ | .creating _ => true
  | _ => false

/-- What holds of a process at any time. -/
structure Inv (s : Process) : Prop where
  serves : Serves s
  /-- The recorder is given the id that is in the audit event. -/
  agrees : ∀ i stage r, s.callbacks i = some stage → stage.login = some r →
    r.correlationId = r.event.correlationId
  lock : ∀ i stage, s.callbacks i = some stage → stage.holds = true → s.lock = some i
  creating : ∀ i r, s.callbacks i = some (.creating r) → s.ready = false
  creations : s.creations = if s.ready then 1 else 0
  uploads : ∀ i, (∀ r, s.callbacks i ≠ some (.recorded r)) → s.uploadsOf i = []

theorem inv_boot (db : Database) : Inv (.boot db) :=
  ⟨by simp [Serves, Process.boot], by simp [Process.boot], by simp [Process.boot], by simp [Process.boot], rfl,
    by simp [Process.boot, Process.uploadsOf]⟩

/-- One callback moves on. -/
theorem Inv.moved {s t : Process} {i : Nat} {stage : Stage} (h : Inv s) (hserves : Serves t)
    (hcallbacks : t.callbacks = (s.move i stage).callbacks)
    (hagrees : ∀ r, stage.login = some r → r.correlationId = r.event.correlationId)
    (hkept : ∀ j, j ≠ i → s.lock = some j → t.lock = some j) (hheld : stage.holds = true → t.lock = some i)
    (hready : ∀ j r, j ≠ i → s.callbacks j = some (.creating r) → t.ready = s.ready)
    (hcreating : ∀ r, stage = .creating r → t.ready = false)
    (hcreations : t.creations = if t.ready then 1 else 0)
    (hothers : ∀ j, j ≠ i → t.uploadsOf j = s.uploadsOf j)
    (hnone : (∀ r, stage ≠ .recorded r) → t.uploadsOf i = []) : Inv t := by
  have hat : ∀ j, t.callbacks j = if j = i then some stage else s.callbacks j := by
    intro j
    rw [hcallbacks, move_callbacks]
  refine ⟨hserves, ?_, ?_, ?_, hcreations, ?_⟩
  · intro j stage' r hj hlogin
    rw [hat] at hj
    split_ifs at hj
    · cases Option.some.inj hj
      exact hagrees r hlogin
    · exact h.agrees j stage' r hj hlogin
  · intro j stage' hj hholds
    rw [hat] at hj
    split_ifs at hj with hji
    · cases Option.some.inj hj
      rw [hji]
      exact hheld hholds
    · exact hkept j hji (h.lock j stage' hj hholds)
  · intro j r hj
    rw [hat] at hj
    split_ifs at hj with hji
    · exact hcreating r (Option.some.inj hj)
    · rw [hready j r hji hj]
      exact h.creating j r hj
  · intro j hj
    by_cases hji : j = i
    · subst hji
      exact hnone fun r heq => hj r (by rw [hat, if_pos rfl, heq])
    · rw [hothers j hji]
      refine h.uploads j fun r heq => hj r ?_
      rw [hat, if_neg hji]
      exact heq

theorem uploadsOf_snoc (s : Process) (i j : Nat) (blob : Blob) :
    {s with uploads := s.uploads ++ [(i, blob)]}.uploadsOf j = s.uploadsOf j ++ if i = j then [blob] else [] := by
  simp only [Process.uploadsOf, List.filter_append, List.map_append]
  by_cases hij : i = j <;> simp [hij]

/-- Before it is recorded a callback has uploaded nothing. -/
theorem Inv.none_yet {s : Process} (h : Inv s) {i : Nat} {stage : Stage} (hstage : s.callbacks i = some stage)
    (hnot : ∀ r, stage ≠ .recorded r) : s.uploadsOf i = [] := by
  refine h.uploads i fun r heq => hnot r ?_
  exact Option.some.inj (hstage.symm.trans heq)

theorem inv_step {a : Action} {s t : Process} (h : Inv s) (hstep : Step host parse passed s a t) : Inv t := by
  have hserves := serves_step h.serves hstep
  cases hstep with
  | request hstage hsystem =>
    refine h.moved hserves rfl (by simp [Stage.login]) (fun _ _ hj => hj) (by simp [Stage.holds])
      (fun _ _ _ _ => rfl) (by simp) h.creations (fun _ _ => rfl) fun _ => ?_
    exact h.uploads _ (by simp [hstage])
  | @commits i correlationId eventId login tokenAuthority encrypted e c system hstage hrunning hsystem =>
    refine h.moved hserves rfl ?_ (fun _ _ hj => hj) (by simp [Stage.holds]) (fun _ _ _ _ => rfl) (by simp)
      h.creations (fun _ _ => rfl) fun _ => h.none_yet hstage (by simp)
    rintro r ⟨⟩
    obtain ⟨_, _, _, _, _, hserved⟩ := h.serves i correlationId hstage
    cases hrunning.symm.trans hserved
    rfl
  | aborts hstage hsystem =>
    exact h.moved hserves rfl (by simp [Stage.login]) (fun _ _ hj => hj) (by simp [Stage.holds])
      (fun _ _ _ _ => rfl) (by simp) h.creations (fun _ _ => rfl) fun _ => h.none_yet hstage (by simp)
  | other hsame hsystem => exact ⟨hserves, h.agrees, h.lock, h.creating, h.creations, h.uploads⟩
  | found hstage hready =>
    exact h.moved hserves rfl (fun r hr => h.agrees _ _ r hstage hr) (fun _ _ hj => hj) (by simp [Stage.holds])
      (fun _ _ _ _ => rfl) (by simp) h.creations (fun _ _ => rfl) fun _ => h.none_yet hstage (by simp)
  | missing hstage hready =>
    exact h.moved hserves rfl (fun r hr => h.agrees _ _ r hstage hr) (fun _ _ hj => hj) (by simp [Stage.holds])
      (fun _ _ _ _ => rfl) (by simp) h.creations (fun _ _ => rfl) fun _ => h.none_yet hstage (by simp)
  | acquire hstage hlock =>
    exact h.moved hserves rfl (fun r hr => h.agrees _ _ r hstage hr) (by simp [hlock]) (fun _ => rfl)
      (fun _ _ _ _ => rfl) (by simp) h.creations (fun _ _ => rfl) fun _ => h.none_yet hstage (by simp)
  | refound hstage hready =>
    refine h.moved hserves rfl (fun r hr => h.agrees _ _ r hstage hr) (fun j hji hj => ?_) (by simp [Stage.holds])
      (fun _ _ _ _ => rfl) (by simp) h.creations (fun _ _ => rfl) fun _ => h.none_yet hstage (by simp)
    exact absurd (Option.some.inj (hj.symm.trans (h.lock _ _ hstage rfl))) hji
  | creates hstage hready =>
    refine h.moved hserves rfl (fun r hr => h.agrees _ _ r hstage hr) (fun _ _ hj => hj) (fun _ => ?_)
      (fun _ _ _ _ => rfl) (fun _ _ => hready) h.creations (fun _ _ => rfl) fun _ => h.none_yet hstage (by simp)
    exact h.lock _ _ hstage rfl
  | created hstage =>
    refine h.moved hserves rfl (fun r hr => h.agrees _ _ r hstage hr) (fun j hji hj => ?_) (by simp [Stage.holds])
      (fun j r hji hj => ?_) (by simp) ?_ (fun _ _ => rfl) fun _ => h.none_yet hstage (by simp)
    · exact absurd (Option.some.inj (hj.symm.trans (h.lock _ _ hstage rfl))) hji
    · exact absurd (Option.some.inj ((h.lock j _ hj rfl).symm.trans (h.lock _ _ hstage rfl))) hji
    · show s.creations + 1 = 1
      rw [h.creations, h.creating _ _ hstage]
      rfl
  | serialized hstage hblob =>
    exact h.moved hserves rfl (fun r hr => h.agrees _ _ r hstage hr) (fun _ _ hj => hj) (by simp [Stage.holds])
      (fun _ _ _ _ => rfl) (by simp) h.creations (fun _ _ => rfl) fun _ => h.none_yet hstage (by simp)
  | swallowed hstage hblob =>
    exact h.moved hserves rfl (fun r hr => h.agrees _ _ r hstage hr) (fun _ _ hj => hj) (by simp [Stage.holds])
      (fun _ _ _ _ => rfl) (by simp) h.creations (fun _ _ => rfl) fun hnot => absurd rfl (hnot _)
  | @uploaded i r blob hstage =>
    refine h.moved hserves rfl (fun r hr => h.agrees _ _ r hstage hr) (fun _ _ hj => hj) (by simp [Stage.holds])
      (fun _ _ _ _ => rfl) (by simp) h.creations (fun j hji => ?_) fun hnot => absurd rfl (hnot _)
    refine (uploadsOf_snoc (s.move i (.recorded r)) i j blob).trans ?_
    rw [if_neg (Ne.symm hji), List.append_nil]
    rfl

/-! ### Receipts -/

/-- What was recorded has its receipt, and what is on its way to the container is one. -/
structure Delivers (s : Process) : Prop where
  recorded : ∀ i r, s.callbacks i = some (.recorded r) →
    ∃ blob, s.uploadsOf i = [blob] ∧ IsReceipt r.event.correlationId blob
  uploading : ∀ i r blob, s.callbacks i = some (.uploading r blob) → IsReceipt r.event.correlationId blob

theorem Delivers.receipted {s : Process} (h : Delivers s) (hinv : Inv s) : Receipted s := by
  refine ⟨h.recorded, hinv.uploads, ?_⟩
  rw [hinv.creations]
  split_ifs <;> omega

theorem Delivers.moved {s t : Process} {i : Nat} {stage : Stage} (h : Delivers s)
    (hcallbacks : t.callbacks = (s.move i stage).callbacks) (hothers : ∀ j, j ≠ i → t.uploadsOf j = s.uploadsOf j)
    (hrecorded : ∀ r, stage = .recorded r → ∃ blob, t.uploadsOf i = [blob] ∧ IsReceipt r.event.correlationId blob)
    (huploading : ∀ r blob, stage = .uploading r blob → IsReceipt r.event.correlationId blob) : Delivers t := by
  have hat : ∀ j, t.callbacks j = if j = i then some stage else s.callbacks j := by
    intro j
    rw [hcallbacks, move_callbacks]
  refine ⟨?_, ?_⟩
  · intro j r hj
    rw [hat] at hj
    split_ifs at hj with hji
    · rw [hji]
      exact hrecorded r (Option.some.inj hj)
    · rw [hothers j hji]
      exact h.recorded j r hj
  · intro j r blob hj
    rw [hat] at hj
    split_ifs at hj with hji
    · exact huploading r blob (Option.some.inj hj)
    · exact h.uploading j r blob hj

/-- Receipts are delivered as long as each document that is asked for is made. -/
theorem delivers_step {a : Action} {s t : Process} (h : Delivers s) (hinv : Inv s)
    (hstep : Step host parse passed s a t)
    (hmakes : ∀ i occurredAt id r, a = .serialize i occurredAt id → s.callbacks i = some (.ensured r) →
      ∃ blob, receipt r.tenant r.user (passed r.correlationId) occurredAt id = .ok blob ∧
        IsReceipt r.correlationId blob) : Delivers t := by
  cases hstep with
  | other => exact ⟨h.recorded, h.uploading⟩
  | @serialized i r occurredAt id blob hstage hblob =>
    refine h.moved rfl (fun _ _ => rfl) (by simp) ?_
    rintro r' blob' ⟨⟩
    obtain ⟨made, hmade, hreceipt⟩ := hmakes i occurredAt id r rfl hstage
    cases hblob.symm.trans hmade
    rw [← hinv.agrees i _ r hstage rfl]
    exact hreceipt
  | @swallowed i r occurredAt id message hstage hblob =>
    obtain ⟨made, hmade, -⟩ := hmakes i occurredAt id r rfl hstage
    cases hblob.symm.trans hmade
  | @uploaded i r blob hstage =>
    have hsnoc := fun j => uploadsOf_snoc (s.move i (.recorded r)) i j blob
    refine h.moved rfl (fun j hji => ?_) ?_ (by simp)
    · refine (hsnoc j).trans ?_
      rw [if_neg (Ne.symm hji), List.append_nil]
      rfl
    · rintro r' ⟨⟩
      refine ⟨blob, (hsnoc i).trans ?_, h.uploading i r blob hstage⟩
      rw [if_pos rfl, show (s.move i (.recorded r)).uploadsOf i = [] from hinv.none_yet hstage (by simp)]
      rfl
  | request | commits | aborts | found | missing | acquire | refound | creates | created =>
    exact h.moved rfl (fun _ _ => rfl) (by simp) (by simp)

theorem delivers_boot (db : Database) : Delivers (.boot db) := ⟨by simp [Process.boot], by simp [Process.boot]⟩

/-- With the text of the id every login would have its receipt, in every run. -/
theorem receipts_of_text (db : Database) (actions : List Action) :
    Always (step host parse fun correlationId => .str correlationId.str) Receipted actions (.boot db) := by
  have hall : Always (step host parse fun correlationId => .str correlationId.str)
      (fun s => Inv s ∧ Delivers s) actions (.boot db) := by
    refine Always.of_invariant actions ⟨inv_boot db, delivers_boot db⟩ ?_
    intro a s t h hstep
    have hcases := step_cases hstep
    refine ⟨inv_step h.1 hcases, delivers_step h.2 h.1 hcases ?_⟩
    exact fun i occurredAt id r _ _ => receipt_text r.tenant r.user r.correlationId occurredAt id
  exact hall.mono fun s h => h.2.receipted h.1

/-- No blob is on its way. -/
def NoUpload (s : Process) : Prop := ∀ i r blob, s.callbacks i ≠ some (.uploading r blob)

theorem NoUpload.move {s : Process} (h : NoUpload s) {i : Nat} {stage : Stage}
    (hstage : ∀ r blob, stage ≠ .uploading r blob) : NoUpload (s.move i stage) := by
  intro j r blob hj
  rw [move_callbacks] at hj
  split_ifs at hj
  · exact hstage r blob (Option.some.inj hj)
  · exact h j r blob hj

theorem noUpload_step {a : Action} {s t : Process} (h : NoUpload s) (hstep : Step host parse callbackPasses s a t) :
    NoUpload t := by
  cases hstep with
  | other => exact h
  | @serialized i r occurredAt id blob hstage hblob =>
    obtain ⟨message, hnone⟩ := receipt_uuid r.tenant r.user r.correlationId occurredAt id
    cases hblob.symm.trans hnone
  | request | commits | aborts | found | missing | acquire | refound | creates | created | swallowed | uploaded =>
    exact h.move (by simp)

end Steps

/-- **As it is, every login has its receipt exactly as long as no login gets to making its
document**: whoever gets there leaves none. -/
theorem receipts_iff (host : Inventory.Host) (parse : String → Option Uuid) (db : Database) (actions : List Action) :
    Always (step host parse callbackPasses) Receipted actions (.boot db) ↔
      EveryStep (step host parse callbackPasses) Undocumented actions (.boot db) := by
  have hboot : Inv (.boot db) ∧ NoUpload (.boot db) := ⟨inv_boot db, by simp [NoUpload, Process.boot]⟩
  refine always_iff_everyStep (I := fun s => Inv s ∧ NoUpload s) (N := fun _ => True) hboot
    ((delivers_boot db).receipted hboot.1) (.of_invariant actions trivial fun _ _ _ _ _ => trivial) ?_ ?_
  · intro a s t h hstep
    exact ⟨inv_step h.1 (step_cases hstep), noUpload_step h.2 (step_cases hstep)⟩
  · intro a s t hs ht _ hP hstep
    have hcases := step_cases hstep
    have hdelivers : Delivers s := ⟨hP.recorded, fun i r blob hup => absurd hup (hs.2 i r blob)⟩
    cases a with
    | serialize i occurredAt blobId =>
      refine iff_of_false (fun hPt => ?_) fun hundocumented => hundocumented
      cases hcases with
      | @serialized _ r _ _ blob hstage hblob => exact ht.2 i r blob (by simp [move_callbacks])
      | @swallowed _ r _ _ message hstage hblob =>
        obtain ⟨blob, hone, -⟩ := hPt.recorded i r (by simp [move_callbacks])
        have hnone : s.uploadsOf i = [] := hs.1.none_yet hstage (by simp)
        cases hnone.symm.trans hone
    | request | database | check | acquire | recheck | create | upload =>
      exact iff_of_true ((delivers_step hdelivers hs.1 hcases (by simp)).receipted ht.1) trivial

/-- One login, from its request to the end of `record_login`. -/
def loginRun : List Action :=
  [.request 0 none 9 ⟨Identity.sampleHost, Identity.samplePrincipal⟩ "5" "fernet:refresh"
    ⟨80, Datetime.utc 0, 90, 0, 0⟩] ++ List.replicate 7 (.database (.statement 0 ())) ++
  [.database (.commit 0), .check 0, .acquire 0, .recheck 0, .create 0, .serialize 0 0 60]

/-- `record_login` is over. -/
def Stage.over : Stage → Bool
  | .recorded _ => true
  | _ => false

/-- It leaves no receipt. -/
theorem receipt_lost :
    ¬ Always (step Inventory.sampleHost Uuid.ofStr callbackPasses) Receipted loginRun (.boot .empty) := by
  have hend : ((run (step Inventory.sampleHost Uuid.ofStr callbackPasses) loginRun (.boot .empty)).any fun s =>
      s.uploads.isEmpty && (s.callbacks 0).any Stage.over) = true := by decide +kernel
  obtain ⟨s, hrun, hs⟩ := (Option.any_eq_true _ _).mp hend
  intro h
  rw [Bool.and_eq_true, List.isEmpty_iff] at hs
  obtain ⟨hempty, hstage⟩ := hs
  obtain ⟨stage, hstage, hover⟩ := (Option.any_eq_true _ _).mp hstage
  cases stage with
  | recorded r =>
    obtain ⟨blob, hone, -⟩ := (h.last hrun).recorded 0 r hstage
    simp [Process.uploadsOf, hempty] at hone
  | _ => cases hover

end Sentinel.Commands.Receipts
