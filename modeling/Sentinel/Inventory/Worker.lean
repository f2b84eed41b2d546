import Sentinel.Inventory.Repository
import Sentinel.Library.Transition

/-! Any number of inventory workers over one database.

A worker repeats `run_once`, taken here await by await: the claim, which locks its row until
it commits; the provider's subscriptions; the transaction that registers them; the
provider's resources; the transaction that stores them and says `completed`; one call to the
relationship service for each resource and one for the rebuild. Whatever raises on the way
leads to the handler, whose transaction says `failed`; if that raises too, it ends the
process, as a crash does anywhere, and another worker takes its place. -/
namespace Sentinel.Inventory
open Library Common

structure AzureSubscription where
  subscriptionId : Uuid
  displayName : String
  state : String

/-- What a worker posts to the relationship service. -/
structure Projection where
  tenantId : Uuid
  inventoryResourceId : Uuid
  azureResourceId : String
  name : String
  resourceType : String
  resourceGroup : String
  properties : Json

/-- Where a worker is in `run_once`, with the job as it was claimed. -/
inductive Phase where
  | idle
  /-- The row is locked; the claim is to be committed. -/
  | claiming (job : SyncJob) (now : Instant)
  | listing (job : SyncJob)
  | registering (job : SyncJob) (available : List AzureSubscription)
  | querying (job : SyncJob) (subscriptions : List (Uuid × Subscription))
  | storing (job : SyncJob) (subscriptions : List (Uuid × Subscription)) (resources : List Json.Object)
  /-- `completed` is committed; these are still to be posted, and then the rebuild. -/
  | projecting (job : SyncJob) (projections : List Projection)
  /-- The handler is entered. -/
  | failing (job : SyncJob) (error : ErrorSummary)

/-- The job a worker executes. -/
def Phase.job : Phase → Option SyncJob
  | .idle | .claiming _ _ => none
  | .listing job | .registering job _ | .querying job _ | .storing job _ _ | .projecting job _
  | .failing job _ => some job

/-- What the workers share; the relationship service is known by what it was sent. -/
structure Shared where
  store : Store
  projected : List Projection
  rebuilt : List Uuid

/-- What an await of `run_once` comes to. -/
inductive Step where
  | select (now : Instant) (skipped : List Uuid)
  | commitClaim
  | list (result : Except ErrorSummary (List AzureSubscription))
  | register (ids : Nat → Uuid) (fault : Option ErrorSummary)
  | query (result : Except ErrorSummary (List Json.Object))
  | store (draws : Nat → Draw) (now : Instant) (fault : Option ErrorSummary)
  | post (fault : Option ErrorSummary)
  | fail (now : Instant) (fault : Option ErrorSummary)
  | crash

section RunOnce
variable (host : Host)

/-- The loop of the registering transaction, `drawn` ids having been used. -/
def register (job : SyncJob) (available : List AzureSubscription) (ids : Nat → Uuid) :
    List Uuid → Nat → List (Uuid × Subscription) → Store →
    Except ErrorSummary (List (Uuid × Subscription) × Store)
  | [], _, subscriptions, s => .ok (subscriptions, s)
  | id :: rest, drawn, subscriptions, s =>
    -- A dictionary keeps the last subscription listed under an id.
    match available.reverse.find? fun item => item.subscriptionId = id with
    | none => .error ⟨"PermissionError", "Subscription " ++ id.str ++ " is not accessible"⟩
    | some source =>
      match upsertSubscription (ids drawn) job.tenantId source.subscriptionId source.displayName source.state s with
      | .error f => .error (host.describe f)
      | .ok (subscription, s) => register job available ids rest (drawn + 1) (subscriptions ++ [(id, subscription)]) s

/-- The subscription row of an item: `subscriptions[UUID(str(item["subscriptionId"]))]`. -/
def subscriptionOf (subscriptions : List (Uuid × Subscription)) (item : Json.Object) :
    Except ErrorSummary Subscription :=
  match item.get "subscriptionId" with
  | none => .error (host.describe (.missingKey "subscriptionId"))
  | some id =>
    match host.uuid (host.py.str id) with
    | none => .error ⟨"ValueError", "badly formed hexadecimal UUID string"⟩
    | some id =>
      match subscriptions.find? fun p => p.1 = id with
      | none => .error (host.describe (.missingKey id.str))
      | some p => .ok p.2

def projectionOf (job : SyncJob) (r : Resource) : Projection where
  tenantId := job.tenantId
  inventoryResourceId := r.id
  azureResourceId := r.azureResourceId
  name := r.name
  resourceType := r.resourceType
  resourceGroup := r.resourceGroup
  properties := r.properties

/-- The loop of the storing transaction: what is to be posted, how many resources changed,
and the store. -/
def storeItems (session : Session) (job : SyncJob) (subscriptions : List (Uuid × Subscription))
    (draws : Nat → Draw) : List Json.Object → Nat → Store → Except ErrorSummary (List Projection × Nat × Store)
  | [], _, s => .ok ([], 0, s)
  | item :: rest, n, s => do
    let subscription ← subscriptionOf host subscriptions item
    let (r, changed, s) ← (upsertResource host session (draws n) job.tenantId subscription.id item s).mapError
      host.describe
    let (projections, count, s) ← storeItems session job subscriptions draws rest (n + 1) s
    return (projectionOf job r :: projections, (if changed then 1 else 0) + count, s)

/-- The update of one job. -/
def updateJob (id : Uuid) (f : SyncJob → SyncJob) (j : SyncJob) : SyncJob := if j.id = id then f j else j

def complete (seen changed : Nat) (now : Instant) (j : SyncJob) : SyncJob :=
  {j with
    status := .completed
    resourcesSeen := seen
    resourcesChanged := changed
    completedAt := some now
    heartbeatAt := some now}

def fail (error : ErrorSummary) (now : Instant) (j : SyncJob) : SyncJob :=
  {j with status := .failed, errorSummary := some error, completedAt := some now}

theorem keeps_updateJob (id : Uuid) {f : SyncJob → SyncJob} (hf : Store.Keeps SyncJob.id SyncJob.key f) :
    Store.Keeps SyncJob.id SyncJob.key (updateJob id f) := by
  refine ⟨?_, ?_⟩
  · intro j
    unfold updateJob
    split_ifs
    · exact hf.id j
    · rfl
  · intro j
    unfold updateJob
    split_ifs
    · exact hf.key j
    · rfl

theorem keeps_claim (now : Instant) : Store.Keeps SyncJob.id SyncJob.key (claim now) :=
  ⟨fun _ => rfl, fun _ => rfl⟩

theorem keeps_complete (seen changed : Nat) (now : Instant) :
    Store.Keeps SyncJob.id SyncJob.key (complete seen changed now) := ⟨fun _ => rfl, fun _ => rfl⟩

theorem keeps_fail (error : ErrorSummary) (now : Instant) :
    Store.Keeps SyncJob.id SyncJob.key (fail error now) := ⟨fun _ => rfl, fun _ => rfl⟩

/-- `UPDATE … WHERE id = …`. -/
def Store.writeJob (s : Store) (id : Uuid) (f : SyncJob → SyncJob) (hf : Keeps SyncJob.id SyncJob.key f) :
    Store :=
  s.updateJobs (updateJob id f) (keeps_updateJob id hf)

/-- The worker's sessions are opened without a setting. -/
def workerSession : Session := ⟨host.bypass, none⟩

/-- `claim_job`'s query: the oldest claimable job whose row is not locked. -/
def selectJob (locked : List Uuid) (s : Store) : Option SyncJob :=
  Query.first (fun a b : SyncJob => a.requestedAt ≤ b.requestedAt)
    (s.jobs.filter fun j => Claimable j ∧ j.id ∉ locked)

/-- The next await of a worker; `locked` are the rows others have locked. -/
def act (locked : List Uuid) (a : Step) (phase : Phase) (s : Shared) : Option (Phase × Shared) :=
  match a, phase with
  | .select now skipped, .idle =>
    match selectJob (locked ++ skipped) s.store with
    | some job => some (.claiming job now, s)
    | none => some (.idle, s)
  | .commitClaim, .claiming job now =>
    some (.listing (claim now job), {s with store := s.store.writeJob job.id (claim now) (keeps_claim now)})
  | .list result, .listing job =>
    match result with
    | .error e => some (.failing job e, s)
    | .ok available => some (.registering job available, s)
  | .register ids fault, .registering job available =>
    match fault with
    | some e => some (.failing job e, s)
    | none =>
      match register host job available ids job.scope.subscriptionIds 0 [] s.store with
      | .error e => some (.failing job e, s)
      | .ok (subscriptions, store) => some (.querying job subscriptions, {s with store := store})
  | .query result, .querying job subscriptions =>
    match result with
    | .error e => some (.failing job e, s)
    | .ok resources => some (.storing job subscriptions resources, s)
  | .store draws now fault, .storing job subscriptions resources =>
    match fault with
    | some e => some (.failing job e, s)
    | none =>
      match storeItems host (workerSession host) job subscriptions draws resources 0 s.store with
      | .error e => some (.failing job e, s)
      | .ok (projections, changed, store) =>
        let store := store.writeJob job.id (complete resources.length changed now) (keeps_complete _ _ now)
        some (.projecting job projections, {s with store := store})
  | .post fault, .projecting job projections =>
    match fault with
    | some e => some (.failing job e, s)
    | none =>
      match projections with
      | p :: rest => some (.projecting job rest, {s with projected := s.projected ++ [p]})
      | [] => some (.idle, {s with rebuilt := s.rebuilt ++ [job.tenantId]})
  | .fail now fault, .failing job error =>
    match fault with
    | some _ => some (.idle, s)
    | none =>
      some (.idle, {s with store := s.store.writeJob job.id (fail error now) (keeps_fail error now)})
  | .crash, _ => some (.idle, s)
  | _, _ => none

/-- The awaits, each with what it leads to. -/
inductive Next (locked : List Uuid) (s : Shared) : Step → Phase → Phase → Shared → Prop
  | select {now : Instant} {skipped : List Uuid} {job : SyncJob}
      (h : selectJob (locked ++ skipped) s.store = some job) :
      Next locked s (.select now skipped) .idle (.claiming job now) s
  | selectNone {now : Instant} {skipped : List Uuid} : Next locked s (.select now skipped) .idle .idle s
  | commitClaim {job : SyncJob} {now : Instant} :
      Next locked s .commitClaim (.claiming job now) (.listing (claim now job))
        {s with store := s.store.writeJob job.id (claim now) (keeps_claim now)}
  | list {job : SyncJob} {available : List AzureSubscription} :
      Next locked s (.list (.ok available)) (.listing job) (.registering job available) s
  | listError {job : SyncJob} {e : ErrorSummary} :
      Next locked s (.list (.error e)) (.listing job) (.failing job e) s
  | register {job : SyncJob} {available : List AzureSubscription} {ids : Nat → Uuid}
      {subscriptions : List (Uuid × Subscription)} {store : Store}
      (h : register host job available ids job.scope.subscriptionIds 0 [] s.store = .ok (subscriptions, store)) :
      Next locked s (.register ids none) (.registering job available) (.querying job subscriptions)
        {s with store := store}
  | registerError {job : SyncJob} {available : List AzureSubscription} {ids : Nat → Uuid}
      {fault : Option ErrorSummary} {e : ErrorSummary} :
      Next locked s (.register ids fault) (.registering job available) (.failing job e) s
  | query {job : SyncJob} {subscriptions : List (Uuid × Subscription)} {resources : List Json.Object} :
      Next locked s (.query (.ok resources)) (.querying job subscriptions) (.storing job subscriptions resources) s
  | queryError {job : SyncJob} {subscriptions : List (Uuid × Subscription)} {e : ErrorSummary} :
      Next locked s (.query (.error e)) (.querying job subscriptions) (.failing job e) s
  | store {job : SyncJob} {subscriptions : List (Uuid × Subscription)} {resources : List Json.Object}
      {draws : Nat → Draw} {now : Instant} {projections : List Projection} {changed : Nat} {store : Store}
      (h : storeItems host (workerSession host) job subscriptions draws resources 0 s.store =
        .ok (projections, changed, store)) :
      Next locked s (.store draws now none) (.storing job subscriptions resources) (.projecting job projections)
        {s with store := store.writeJob job.id (complete resources.length changed now) (keeps_complete _ _ now)}
  | storeError {job : SyncJob} {subscriptions : List (Uuid × Subscription)} {resources : List Json.Object}
      {draws : Nat → Draw} {now : Instant} {fault : Option ErrorSummary} {e : ErrorSummary} :
      Next locked s (.store draws now fault) (.storing job subscriptions resources) (.failing job e) s
  | post {job : SyncJob} {p : Projection} {rest : List Projection} :
      Next locked s (.post none) (.projecting job (p :: rest)) (.projecting job rest)
        {s with projected := s.projected ++ [p]}
  | rebuild {job : SyncJob} :
      Next locked s (.post none) (.projecting job []) .idle {s with rebuilt := s.rebuilt ++ [job.tenantId]}
  | postError {job : SyncJob} {projections : List Projection} {e : ErrorSummary} :
      Next locked s (.post (some e)) (.projecting job projections) (.failing job e) s
  | fail {job : SyncJob} {error : ErrorSummary} {now : Instant} :
      Next locked s (.fail now none) (.failing job error) .idle
        {s with store := s.store.writeJob job.id (fail error now) (keeps_fail error now)}
  | failError {job : SyncJob} {error e : ErrorSummary} {now : Instant} :
      Next locked s (.fail now (some e)) (.failing job error) .idle s
  | crash {phase : Phase} : Next locked s .crash phase .idle s

theorem next_of_act {locked : List Uuid} {a : Step} {phase phase' : Phase} {s s' : Shared}
    (h : act host locked a phase s = some (phase', s')) : Next host locked s a phase phase' s' := by
  unfold act at h
  split at h
  · split at h
    · cases h
      exact .select ‹_›
    · cases h
      exact .selectNone
  · cases h
    exact .commitClaim
  · split at h
    · cases h
      exact .listError
    · cases h
      exact .list
  · split at h
    · cases h
      exact .registerError
    · split at h
      · cases h
        exact .registerError
      · cases h
        exact .register ‹_›
  · split at h
    · cases h
      exact .queryError
    · cases h
      exact .query
  · split at h
    · cases h
      exact .storeError
    · split at h
      · cases h
        exact .storeError
      · cases h
        exact .store ‹_›
  · split at h
    · cases h
      exact .postError
    · split at h
      · cases h
        exact .post
      · cases h
        exact .rebuild
  · split at h
    · cases h
      exact .failError
    · cases h
      exact .fail
  · cases h
    exact .crash
  · cases h

/-! ### The workers -/

structure State where
  shared : Shared
  workers : List Phase

inductive Action where
  | boot
  | enqueue (id : Uuid) (requestedAt : Instant) (r : JobRequest)
  | worker (w : Nat) (step : Step)

/-- The rows that claims have locked. -/
def State.locked (s : State) : List Uuid :=
  s.workers.filterMap fun phase =>
    match phase with
    | .claiming job _ => some job.id
    | _ => none

def step (a : Action) (s : State) : Option State :=
  match a with
  | .boot => some {s with workers := s.workers ++ [.idle]}
  | .enqueue id requestedAt r =>
    match createSyncJob id requestedAt r s.shared.store with
    | .error _ => none
    | .ok (_, store) => some {s with shared := {s.shared with store := store}}
  | .worker w a => do
    let phase ← s.workers[w]?
    let (phase, shared) ← act host s.locked a phase s.shared
    return ⟨shared, s.workers.set w phase⟩

def initial : State := ⟨⟨.empty, [], []⟩, []⟩

end RunOnce
end Sentinel.Inventory
