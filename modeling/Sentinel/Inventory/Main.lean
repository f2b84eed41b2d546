import Sentinel.Common.Context
import Sentinel.Inventory.Worker

/-! The endpoints of the inventory service.

`UnitOfWork` opens the transaction of each under the actor's tenant. The two commands are
also taken query by query here, with what their sessions hold in memory meanwhile. -/
namespace Sentinel.Inventory
open Library Library.Table Common

/-- The session `UnitOfWork` opens. -/
def unitOfWork (bypass : Bool) (tenantId : Uuid) : Session := ⟨bypass, some tenantId⟩

variable (host : Host)

/-! ### `discover_subscriptions` -/

/-- The loop, with nobody else on the table; `drawn` ids have been used. -/
def discoverSubscriptions (tenantId : Uuid) (ids : Nat → Uuid) :
    List AzureSubscription → Nat → Store → Except Failure (List Subscription × Store)
  | [], _, s => .ok ([], s)
  | item :: rest, drawn, s => do
    let (row, s) ← upsertSubscription (ids drawn) tenantId item.subscriptionId item.displayName item.state s
    let (rows, s) ← discoverSubscriptions tenantId ids rest (drawn + 1) s
    return (row :: rows, s)

/-- A subscription that was looked up, and the row as the session holds it now. -/
structure Discovered where
  source : Upsert Subscription
  row : Subscription

/-- What the session holds of a subscription: its own rows before the table's. -/
def lookupSubscription (tenantId azureSubscriptionId : Uuid) (done : List Discovered) (s : Store) :
    Option Subscription :=
  match done.reverse.find? fun d => d.row.key = (tenantId, azureSubscriptionId) with
  | some d => some d.row
  | none => findSubscription tenantId azureSubscriptionId s

def discoverNext (tenantId id : Uuid) (item : AzureSubscription) (done : List Discovered) (s : Store) : Discovered :=
  match lookupSubscription tenantId item.subscriptionId done s with
  | none =>
    let row := newSubscription id tenantId item.subscriptionId item.displayName item.state
    ⟨.fresh row, row⟩
  | some r => ⟨.found r, {r with displayName := item.displayName, state := item.state, version := r.version + 1}⟩

/-- The update of a subscription that was found. -/
def overwritten (loaded row r : Subscription) : Subscription :=
  if r.id = loaded.id then
    {r with
      displayName := assign loaded.displayName row.displayName r.displayName
      state := assign loaded.state row.state r.state
      version := row.version}
  else r

theorem keeps_overwritten (loaded row : Subscription) :
    Store.Keeps Subscription.id Subscription.key (overwritten loaded row) := by
  constructor <;> intro r <;> unfold overwritten <;> split_ifs <;> rfl

def writeDiscovered (d : Discovered) (s : Store) : Except Failure Store :=
  if [d.row.displayName, d.row.state].all Json.storableText then
    match d.source with
    | .fresh r => s.insertSubscription r
    | .found r => .ok (s.updateSubscriptions (overwritten r d.row) (keeps_overwritten r d.row))
  else .error .refused

def writeAllDiscovered : List Discovered → Store → Except Failure Store
  | [], s => .ok s
  | d :: rest, s => (writeDiscovered d s).bind (writeAllDiscovered rest)

/-! ### `create_sync_job` -/

/-- Every subscription of the scope is registered; a request for others is answered 422. -/
def registered (r : JobRequest) (s : Store) : Bool :=
  r.subscriptionIds.all fun id =>
    ((listSubscriptions host r.tenantId s).map Subscription.azureSubscriptionId).contains id

/-- How far `create_sync_job` is. -/
inductive Requesting where
  | begun
  | checked
  | looked (job : Upsert SyncJob)

/-- The next query. -/
def requestJob (r : JobRequest) (id : Uuid) (requestedAt : Instant) (s : Store) : Requesting → Option Requesting
  | .begun => if registered host r s then some .checked else none
  | .checked => some (.looked (lookup (findJob r.tenantId r.idempotencyKey s) (newJob id requestedAt r)))
  | .looked _ => none

def writeRequested (r : JobRequest) (job : Upsert SyncJob) (s : Store) : Except Failure Store :=
  match job with
  | .fresh j => if r.taken then s.insertJob j else .error .refused
  | .found _ => .ok s

def jobRequested (r : JobRequest) (job : SyncJob) (e : Envelope) : AuditEvent where
  id := e.eventId
  source := "inventory-service"
  type := "inventory.sync-requested.v1"
  subject := "sync-job/" ++ job.id.str
  time := e.time
  tenantId := r.tenantId
  correlationId := r.correlationId
  data := ⟨[("mode", .str r.mode), ("subscription_count", .int r.subscriptionIds.length)], by simp [Json.WellFormed]⟩
  actorType := "user"
  actorId := r.actorId.str
  action := "inventory.sync.request"
  entityType := "sync_job"
  entityId := some job.id.str
  outcome := "accepted"

end Sentinel.Inventory
