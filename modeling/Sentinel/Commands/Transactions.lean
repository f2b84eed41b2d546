import Sentinel.Identity.Transactions
import Sentinel.Intelligence.Main
import Sentinel.Inventory.Main
import Sentinel.Operations.Main

/-! The commands of actors side by side, over one database, at READ COMMITTED.

Five handlers write on behalf of an actor: the callback of a login, the discovery of
subscriptions, and the requests for a sync job, an assessment and an operation. Each has a
transaction of its own, taken query by query; the code exchange of the callback and the
provider's subscriptions come before it. What a handler adds is flushed before its commit
and decided by the constraints at the commit at the latest; whatever raises before rolls it
back. A request is answered with success once its commit has returned, and only then. -/
namespace Sentinel.Commands
open Library Library.Table Common
open Identity.Transactions (Login Onboarding AtConnection)
open Inventory (AzureSubscription JobRequest Discovered Requesting)
open Intelligence (AssessmentCreate)
open Operations (OperationCreate Creating)

structure Database where
  identity : Identity.Store
  inventory : Inventory.Store
  intelligence : Intelligence.Store
  operations : Operations.Store
  outbox : Outbox
  /-- The log of the answers to POST /operations: tenant, key, and the id in the answer. -/
  answers : List (Uuid × String × Uuid)

/-- The empty tables. -/
def Database.empty : Database where
  identity := .empty
  inventory := .empty
  intelligence := .empty
  operations := .empty
  outbox := .empty
  answers := []

inductive Start where
  | callback (login : Login) (tokenAuthority encrypted : String) (correlationId : Uuid) (e : Envelope)
  | discover (actor : ActorContext) (ids : Nat → Uuid) (discovered : List AzureSubscription)
  | syncJob (r : JobRequest) (id : Uuid) (requestedAt : Instant) (e : Envelope)
  | assessment (actor : ActorContext) (request : AssessmentCreate) (id : Uuid) (e : Envelope)
  | operation (actor : ActorContext) (request : OperationCreate) (idempotencyKey : String) (id : Uuid) (e : Envelope)

inductive Txn where
  | callback (login : Login) (tokenAuthority encrypted : String) (correlationId : Uuid) (e : Envelope)
      (stage : Onboarding)
  | discover (actor : ActorContext) (ids : Nat → Uuid) (remaining : List AzureSubscription) (done : List Discovered)
  | syncJob (r : JobRequest) (id : Uuid) (requestedAt : Instant) (e : Envelope) (stage : Requesting)
  | assessment (actor : ActorContext) (request : AssessmentCreate) (id : Uuid) (e : Envelope)
  | operation (actor : ActorContext) (request : OperationCreate) (idempotencyKey : String) (id : Uuid) (e : Envelope)
      (stage : Creating)

def Start.begin : Start → Txn
  | .callback login tokenAuthority encrypted correlationId e =>
    .callback login tokenAuthority encrypted correlationId e .begun
  | .discover actor ids discovered => .discover actor ids discovered []
  | .syncJob r id requestedAt e => .syncJob r id requestedAt e .begun
  | .assessment actor request id e => .assessment actor request id e
  | .operation actor request idempotencyKey id e => .operation actor request idempotencyKey id e .begun

/-- The event of a callback. -/
def userSynchronized (c : AtConnection) (correlationId : Uuid) (e : Envelope) : AuditEvent where
  id := e.eventId
  source := "identity-service"
  type := "identity.user-synchronized.v1"
  subject := "user/" ++ c.user.row.id.str
  time := e.time
  tenantId := c.tenant.row.id
  correlationId := correlationId
  data := ⟨[("authentication", .str "authorization_code_pkce")], by simp [Json.WellFormed]⟩
  actorType := "user"
  actorId := c.user.row.id.str
  action := "identity.login"
  entityType := "user"
  entityId := some c.user.row.id.str
  outcome := "succeeded"

section Protocol
variable (host : Inventory.Host)

/-- The next query of a transaction. -/
def statement (db : Database) : Txn → Option Txn
  | .callback login tokenAuthority encrypted correlationId e stage =>
    (Identity.Transactions.onboard login tokenAuthority encrypted db.identity stage).map
      (.callback login tokenAuthority encrypted correlationId e)
  | .discover actor ids (item :: remaining) done =>
    some (.discover actor ids remaining
      (done ++ [Inventory.discoverNext actor.tenantId (ids done.length) item done db.inventory]))
  | .discover _ _ [] _ => none
  | .syncJob r id requestedAt e stage =>
    (Inventory.requestJob host r id requestedAt db.inventory stage).map (.syncJob r id requestedAt e)
  | .assessment _ _ _ _ => none
  | .operation actor request idempotencyKey id e stage =>
    (Operations.create actor request idempotencyKey id db.operations stage).map
      (.operation actor request idempotencyKey id e)

/-- The database with a record for the event, if the record's id is new. -/
def Database.enqueue (db : Database) (event : AuditEvent) (e : Envelope) : Option Database :=
  (db.outbox.enqueue event e).map fun outbox => {db with outbox := outbox}

/-- The answer to a request for an operation. -/
def Database.answer (db : Database) (tenantId : Uuid) (idempotencyKey : String) (id : Uuid) : Database :=
  {db with answers := db.answers ++ [(tenantId, idempotencyKey, id)]}

/-- What the commit of a transaction leaves. -/
def commit (db : Database) : Txn → Option Database
  | .callback login tokenAuthority encrypted correlationId e (.connected c) => do
    let identity ← (Identity.Transactions.writeOnboarding login tokenAuthority encrypted c db.identity).toOption
    {db with identity := identity}.enqueue (userSynchronized c correlationId e) e
  | .discover _ _ [] done => do
    let inventory ← (Inventory.writeAllDiscovered done db.inventory).toOption
    some {db with inventory := inventory}
  | .syncJob r _ _ e (.looked job) => do
    let inventory ← (Inventory.writeRequested r job db.inventory).toOption
    {db with inventory := inventory}.enqueue (Inventory.jobRequested r job.row e) e
  | .assessment actor request id e => do
    let intelligence ← (db.intelligence.insert (Intelligence.newAssessment actor request id)).toOption
    {db with intelligence := intelligence}.enqueue
      (Intelligence.assessmentRequested actor request (Intelligence.newAssessment actor request id) e) e
  | .operation actor _ idempotencyKey _ _ (.looked (.found o)) => some (db.answer actor.tenantId idempotencyKey o.id)
  | .operation actor request idempotencyKey _ e (.looked (.fresh o)) => do
    let operations ← (db.operations.insert o).toOption
    let db ← {db with operations := operations}.enqueue (Operations.operationCreated actor request o e) e
    some (db.answer actor.tenantId idempotencyKey o.id)
  | _ => none

def protocol : ReadCommitted.Protocol Database Txn Start Unit where
  begin := fun _ r => r.begin
  statement := fun _ _ db t => statement host db t
  commit := commit

end Protocol

/-- What a commit can be. -/
inductive Commits (db : Database) : Txn → Database → Prop
  | callback {login : Login} {tokenAuthority encrypted : String} {correlationId : Uuid} {e : Envelope}
      {c : AtConnection} {identity : Identity.Store} {outbox : Outbox}
      (h : Identity.Transactions.writeOnboarding login tokenAuthority encrypted c db.identity = .ok identity)
      (ho : db.outbox.enqueue (userSynchronized c correlationId e) e = some outbox) :
      Commits db (.callback login tokenAuthority encrypted correlationId e (.connected c))
        {db with identity := identity, outbox := outbox}
  | discover {actor : ActorContext} {ids : Nat → Uuid} {done : List Discovered} {inventory : Inventory.Store}
      (h : Inventory.writeAllDiscovered done db.inventory = .ok inventory) :
      Commits db (.discover actor ids [] done) {db with inventory := inventory}
  | syncJob {r : JobRequest} {id : Uuid} {requestedAt : Instant} {e : Envelope} {job : Upsert Inventory.SyncJob}
      {inventory : Inventory.Store} {outbox : Outbox}
      (h : Inventory.writeRequested r job db.inventory = .ok inventory)
      (ho : db.outbox.enqueue (Inventory.jobRequested r job.row e) e = some outbox) :
      Commits db (.syncJob r id requestedAt e (.looked job)) {db with inventory := inventory, outbox := outbox}
  | assessment {actor : ActorContext} {request : AssessmentCreate} {id : Uuid} {e : Envelope}
      {intelligence : Intelligence.Store} {outbox : Outbox}
      (h : db.intelligence.insert (Intelligence.newAssessment actor request id) = .ok intelligence)
      (ho : db.outbox.enqueue
        (Intelligence.assessmentRequested actor request (Intelligence.newAssessment actor request id) e) e =
          some outbox) :
      Commits db (.assessment actor request id e) {db with intelligence := intelligence, outbox := outbox}
  | replayed {actor : ActorContext} {request : OperationCreate} {idempotencyKey : String} {id : Uuid} {e : Envelope}
      {o : Operations.Operation} :
      Commits db (.operation actor request idempotencyKey id e (.looked (.found o)))
        (db.answer actor.tenantId idempotencyKey o.id)
  | created {actor : ActorContext} {request : OperationCreate} {idempotencyKey : String} {id : Uuid} {e : Envelope}
      {o : Operations.Operation} {operations : Operations.Store} {outbox : Outbox}
      (h : db.operations.insert o = .ok operations)
      (ho : db.outbox.enqueue (Operations.operationCreated actor request o e) e = some outbox) :
      Commits db (.operation actor request idempotencyKey id e (.looked (.fresh o)))
        ({db with operations := operations, outbox := outbox}.answer actor.tenantId idempotencyKey o.id)

theorem commits_of_commit {db db' : Database} {t : Txn} (h : commit db t = some db') : Commits db t db' := by
  unfold commit at h
  split at h
  · obtain ⟨identity, hw, henqueue⟩ := Option.bind_eq_some_iff.mp h
    obtain ⟨outbox, ho, rfl⟩ := Option.map_eq_some_iff.mp henqueue
    exact .callback (Fallible.toOption_eq_some.mp hw) ho
  · obtain ⟨inventory, hw, heq⟩ := Option.bind_eq_some_iff.mp h
    cases heq
    exact .discover (Fallible.toOption_eq_some.mp hw)
  · obtain ⟨inventory, hw, henqueue⟩ := Option.bind_eq_some_iff.mp h
    obtain ⟨outbox, ho, rfl⟩ := Option.map_eq_some_iff.mp henqueue
    exact .syncJob (Fallible.toOption_eq_some.mp hw) ho
  · obtain ⟨intelligence, hw, henqueue⟩ := Option.bind_eq_some_iff.mp h
    obtain ⟨outbox, ho, rfl⟩ := Option.map_eq_some_iff.mp henqueue
    exact .assessment (Fallible.toOption_eq_some.mp hw) ho
  · cases h
    exact .replayed
  · obtain ⟨operations, hw, hrest⟩ := Option.bind_eq_some_iff.mp h
    obtain ⟨db₁, henqueue, heq⟩ := Option.bind_eq_some_iff.mp hrest
    obtain ⟨outbox, ho, rfl⟩ := Option.map_eq_some_iff.mp henqueue
    cases heq
    exact .created (Fallible.toOption_eq_some.mp hw) ho
  · cases h

end Sentinel.Commands
