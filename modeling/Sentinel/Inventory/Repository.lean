import Sentinel.Common.Python
import Sentinel.Inventory.Models
import Sentinel.Library.Query

/-! `InventoryRepository`: each function as the source has it, on the store.

Reads and writes of `inventory.resources` go through the session, whose setting
`app.tenant_id` the policy of that table compares with each row, unless its role bypasses
row-level security. -/
namespace Sentinel.Inventory
open Library Common

/-- What the functions take from Python and from the database. -/
structure Host where
  py : Python
  /-- `UUID(text)`. -/
  uuid : String → Option Uuid
  /-- The role of the services bypasses row-level security. -/
  bypass : Bool
  /-- The exception a failed statement or lookup raises. -/
  describe : Failure → ErrorSummary
  /-- PostgreSQL's `lower`. -/
  lower : String → String
  /-- `text ILIKE pattern`. -/
  ilike : String → String → Bool
  /-- A cursor for the id, in base64. -/
  encodeCursor : Uuid → String
  decodeCursor : String → Option Uuid
  subscriptionOrder : Query.RowOrder Subscription
  groupOrder : Query.RowOrder ResourceGroup

/-- ASCII texts, and rows as they are stored. -/
def sampleHost : Host where
  py := .ascii
  uuid := fun text => if text = (3 : Uuid).str then some 3 else none
  bypass := true
  describe := fun _ => ⟨"IntegrityError", "duplicate key value violates unique constraint"⟩
  lower := Python.ascii.lower
  ilike := fun text pattern => pattern = "%" ++ text ++ "%"
  encodeCursor := Uuid.str
  decodeCursor := fun _ => none
  subscriptionOrder := .stored _
  groupOrder := .stored _

/-- A transaction: whether its role bypasses row-level security, and its `app.tenant_id`. -/
structure Session where
  bypass : Bool
  tenantId : Option Uuid

/-- `resources_tenant_isolation` lets the row be seen and written. -/
def Session.sees (session : Session) (r : Resource) : Bool :=
  session.bypass || session.tenantId == some r.tenantId

/-! ### Queries -/

def PageSize := {n : Nat // 1 ≤ n ∧ n ≤ 200}

structure ResourceQuery where
  subscriptionId : Option Uuid
  resourceGroup : Option String
  resourceType : Option String
  location : Option String
  state : Option String
  search : Option String
  cursor : Option String
  limit : PageSize

section Queries
variable (host : Host)

/-- A filter that is there and not empty. -/
def asked (filter : Option String) (column : String → Bool) : Bool := filter.all fun f => f = "" || column f

/-- The `WHERE` of `list_resources`, the value of `state` and the cursor read already. -/
def ResourceQuery.admits (q : ResourceQuery) (tenantId : Uuid) (state : Option ResourceState)
    (after : Option Uuid) (r : Resource) : Bool :=
  r.tenantId = tenantId &&
  q.subscriptionId.all (r.subscriptionId = ·) &&
  asked q.resourceGroup (fun f => host.lower r.resourceGroup = host.py.lower f) &&
  asked q.resourceType (fun f => host.lower r.resourceType = host.py.lower f) &&
  asked q.location (fun f => r.location.any fun l => host.lower l = host.py.lower f) &&
  state.all (r.state = ·) &&
  asked q.search (fun f => host.ilike r.name ("%" ++ host.py.strip f ++ "%") ||
    host.ilike r.azureResourceId ("%" ++ host.py.strip f ++ "%")) &&
  after.all (· < r.id)

variable {host} in
theorem tenantId_of_admits {q : ResourceQuery} {tenantId : Uuid} {state : Option ResourceState}
    {after : Option Uuid} {r : Resource} (h : q.admits host tenantId state after r) : r.tenantId = tenantId := by
  simp only [ResourceQuery.admits, Bool.and_eq_true, decide_eq_true_eq] at h
  exact h.1.1.1.1.1.1.1

/-- A value that is given, and read unless it is empty. -/
def readFilter {α : Type} (read : String → Option α) (filter : Option String) : Except Failure (Option α) :=
  match filter with
  | none => .ok none
  | some f =>
    if f = "" then .ok none
    else match read f with
      | some a => .ok (some a)
      | none => .error .refused

/-- A filter with a NUL, which the database refuses to compare with, finds nothing here. -/
def listResources (session : Session) (tenantId : Uuid) (q : ResourceQuery) (s : Store) :
    Except Failure (List Resource × Option String) := do
  let state ← readFilter ResourceState.ofName q.state
  let after ← readFilter host.decodeCursor q.cursor
  let rows := (Query.orderBy (fun a b : Resource => a.id ≤ b.id)
    (s.resources.filter fun r => session.sees r && q.admits host tenantId state after r)).take (q.limit.val + 1)
  if q.limit.val < rows.length then
    return (rows.take q.limit.val, (rows[q.limit.val - 1]?).map fun r => host.encodeCursor r.id)
  else return (rows, none)

def getResource (session : Session) (tenantId resourceId : Uuid) (s : Store) : Option Resource :=
  s.resources.find? fun r => session.sees r && (r.tenantId = tenantId && r.id = resourceId)

def listSubscriptions (tenantId : Uuid) (s : Store) : List Subscription :=
  Query.orderBy (fun a b : Subscription => a.displayName ≤ b.displayName)
    (host.subscriptionOrder.arrange 0 (s.subscriptions.filter fun r => r.tenantId = tenantId))

def listResourceGroups (tenantId : Uuid) (s : Store) : List ResourceGroup :=
  Query.orderBy (fun a b : ResourceGroup => a.name ≤ b.name)
    (host.groupOrder.arrange 0 (s.groups.filter fun g => g.tenantId = tenantId))

end Queries

/-! ### Jobs -/

/-- What a request for a job says. -/
structure JobRequest where
  tenantId : Uuid
  actorId : Uuid
  entraTenantId : Uuid
  mode : String
  subscriptionIds : List Uuid
  correlationId : Uuid
  idempotencyKey : String

/-- The job of a request, with the defaults of the class. -/
def newJob (id : Uuid) (requestedAt : Instant) (r : JobRequest) : SyncJob where
  id := id
  tenantId := r.tenantId
  requestedBy := r.actorId
  mode := r.mode
  scope := ⟨r.subscriptionIds, r.entraTenantId⟩
  idempotencyKey := r.idempotencyKey
  status := .queued
  resourcesSeen := 0
  resourcesChanged := 0
  errorSummary := none
  correlationId := r.correlationId
  requestedAt := requestedAt
  startedAt := none
  completedAt := none
  heartbeatAt := none

/-- The columns and `sync_job_mode` take the request. -/
def JobRequest.taken (r : JobRequest) : Bool :=
  ["full", "incremental", "resource"].contains r.mode && Json.storableText r.idempotencyKey

def findJob (tenantId : Uuid) (idempotencyKey : String) (s : Store) : Option SyncJob :=
  s.jobs.find? fun j => j.key = (tenantId, idempotencyKey)

/-- The insert of `create_sync_job`. -/
def insertNewJob (id : Uuid) (requestedAt : Instant) (r : JobRequest) (s : Store) : Except Failure Store :=
  if r.taken then s.insertJob (newJob id requestedAt r) else .error .refused

def createSyncJob (id : Uuid) (requestedAt : Instant) (r : JobRequest) (s : Store) :
    Except Failure (SyncJob × Store) :=
  match findJob r.tenantId r.idempotencyKey s with
  | some job => .ok (job, s)
  | none => (insertNewJob id requestedAt r s).map fun s => (newJob id requestedAt r, s)

/-- What `claim_job` selects by. -/
def Claimable (j : SyncJob) : Prop := j.status = .queued

instance : DecidablePred Claimable := fun j => decEq j.status .queued

/-- What `claim_job` assigns. -/
def claim (now : Instant) (j : SyncJob) : SyncJob :=
  {j with status := .running, startedAt := some now, heartbeatAt := some now}

/-! ### Upserts -/

def findSubscription (tenantId azureSubscriptionId : Uuid) (s : Store) : Option Subscription :=
  s.subscriptions.find? fun r => r.key = (tenantId, azureSubscriptionId)

/-- The update of a subscription that was found. -/
def rediscovered (id : Uuid) (displayName state : String) (r : Subscription) : Subscription :=
  if r.id = id then {r with displayName := displayName, state := state, version := r.version + 1} else r

theorem keeps_rediscovered (id : Uuid) (displayName state : String) :
    Store.Keeps Subscription.id Subscription.key (rediscovered id displayName state) := by
  constructor <;> intro r <;> unfold rediscovered <;> split_ifs <;> rfl

def newSubscription (id tenantId azureSubscriptionId : Uuid) (displayName state : String) : Subscription where
  id := id
  tenantId := tenantId
  azureSubscriptionId := azureSubscriptionId
  displayName := displayName
  state := state
  lastSyncAt := none
  version := 1

def upsertSubscription (id tenantId azureSubscriptionId : Uuid) (displayName state : String) (s : Store) :
    Except Failure (Subscription × Store) :=
  if !([displayName, state].all Json.storableText) then .error .refused
  else match findSubscription tenantId azureSubscriptionId s with
    | none =>
      (s.insertSubscription (newSubscription id tenantId azureSubscriptionId displayName state)).map fun s =>
        (newSubscription id tenantId azureSubscriptionId displayName state, s)
    | some r => .ok (rediscovered r.id displayName state r,
      s.updateSubscriptions (rediscovered r.id displayName state) (keeps_rediscovered r.id displayName state))

/-- What `upsert_resource` draws: the clock, the time the transaction began, which the database
has for `now()`, and the ids of the rows it may add. -/
structure Draw where
  now : Instant
  begun : Instant
  id : Uuid
  groupId : Uuid

/-- `values`: what an item says of its resource. -/
structure ItemValues where
  azureResourceId : String
  normalizedResourceId : String
  resourceType : String
  name : String
  resourceGroup : String
  location : Json
  kind : Json
  sku : Option String
  tags : Json
  properties : Json
  lastSeenAt : Instant

section Upsert
variable (host : Host) (session : Session) (draw : Draw) (tenantId subscriptionId : Uuid)

/-- `str(item.get(key) or "")`. -/
def textOf (item : Json.Object) (key : String) : String := host.py.str (orElse (item.get key) (.str ""))

def itemValues (armId : String) (item : Json.Object) : ItemValues where
  azureResourceId := armId
  normalizedResourceId := host.py.lower armId
  resourceType := host.py.lower (textOf host item "type")
  name := textOf host item "name"
  resourceGroup := textOf host item "resourceGroup"
  location := (item.get "location").getD .null
  kind := (item.get "kind").getD .null
  sku := if textOf host item "sku" = "" then none else some (textOf host item "sku")
  tags := orElse (item.get "tags") (.obj [])
  properties := orElse (item.get "properties") (.obj [])
  lastSeenAt := draw.now

/-- A value for a nullable text column, if it can be one. -/
def nullableText : Json → Option (Option String)
  | .null => some none
  | .str text => if Json.storableText text then some (some text) else none
  | _ => none

/-- The columns take the values; `normalized_resource_id_lowercase` is one of the checks. -/
def ItemValues.taken (v : ItemValues) : Bool :=
  [v.azureResourceId, v.normalizedResourceId, v.resourceType, v.name, v.resourceGroup, v.sku.getD ""].all
    Json.storableText &&
  (nullableText v.location).isSome && (nullableText v.kind).isSome &&
  v.tags.storable && v.properties.storable && v.normalizedResourceId = host.lower v.normalizedResourceId

/-- The row of a resource seen for the first time, as the session holds it. -/
def newResource (v : ItemValues) : Resource where
  id := draw.id
  tenantId := tenantId
  subscriptionId := subscriptionId
  azureResourceId := v.azureResourceId
  normalizedResourceId := v.normalizedResourceId
  resourceType := v.resourceType
  name := v.name
  resourceGroup := v.resourceGroup
  location := (nullableText v.location).join
  kind := (nullableText v.kind).join
  sku := v.sku
  tags := v.tags
  properties := v.properties
  provisioningState := none
  state := .active
  firstSeenAt := draw.begun
  lastSeenAt := v.lastSeenAt
  missingSince := none
  version := 1

/-- The row of a resource seen again, as the session holds it; a value equal to the one loaded
is not assigned. -/
def seenAgain (v : ItemValues) (r : Resource) : Resource :=
  {r with
    azureResourceId := v.azureResourceId
    normalizedResourceId := v.normalizedResourceId
    resourceType := v.resourceType
    name := v.name
    resourceGroup := v.resourceGroup
    location := (nullableText v.location).join
    kind := (nullableText v.kind).join
    sku := v.sku
    tags := if Python.eq r.tags v.tags then r.tags else v.tags
    properties := if Python.eq r.properties v.properties then r.properties else v.properties
    lastSeenAt := v.lastSeenAt
    state := .active
    missingSince := none
    version := r.version + 1}

/-- Some value differs from the one loaded. -/
def differs (v : ItemValues) (r : Resource) : Bool :=
  r.azureResourceId ≠ v.azureResourceId || r.normalizedResourceId ≠ v.normalizedResourceId ||
  r.resourceType ≠ v.resourceType || r.name ≠ v.name || r.resourceGroup ≠ v.resourceGroup ||
  nullableText v.location ≠ some r.location || nullableText v.kind ≠ some r.kind || r.sku ≠ v.sku ||
  !Python.eq r.tags v.tags || !Python.eq r.properties v.properties || r.lastSeenAt ≠ v.lastSeenAt ||
  r.state ≠ .active || r.missingSince ≠ none

/-- What the table keeps of a resource. -/
def Resource.stored (r : Resource) : Resource :=
  {r with tags := r.tags.reload, properties := r.properties.reload}

/-- The update of the resource an item is about. -/
def resourceUpdate (v : ItemValues) (r : Resource) : Resource :=
  if r.key = (tenantId, v.normalizedResourceId) then (seenAgain v r).stored else r

theorem keeps_resourceUpdate (v : ItemValues) :
    Store.Keeps Resource.id Resource.key (resourceUpdate tenantId v) := by
  refine ⟨?_, ?_⟩
  · intro r
    unfold resourceUpdate
    split_ifs <;> rfl
  · intro r
    unfold resourceUpdate
    split_ifs with hkey
    · exact Prod.ext rfl (congrArg Prod.snd hkey).symm
    · rfl

/-- The row a query for the resource of an item looks for. -/
def isResource (normalized : String) (r : Resource) : Bool := r.key = (tenantId, normalized)

/-- The part of `upsert_resource` about resources: the resource, whether it changed, and the
store. -/
def storeResource (v : ItemValues) (s : Store) : Except Failure (Resource × Bool × Store) :=
  match s.resources.find? fun r => session.sees r && isResource tenantId v.normalizedResourceId r with
  | none =>
    let r := newResource draw tenantId subscriptionId v
    if !session.sees r then .error .rowSecurity
    else if !v.taken host then .error .refused
    else (s.insertResource r.stored).map fun s => (r, true, s)
  | some r =>
    if v.taken host then
      .ok (seenAgain v r, differs v r,
        s.updateResources (resourceUpdate tenantId v) (keeps_resourceUpdate tenantId v))
    else .error .refused

def resourceGroupType : String := "microsoft.resources/subscriptions/resourcegroups"

def newGroup (r : Resource) : ResourceGroup where
  id := draw.groupId
  tenantId := tenantId
  subscriptionId := subscriptionId
  name := r.name
  normalizedName := host.py.lower r.name
  location := r.location
  tags := r.tags.reload
  state := "active"
  lastSeenAt := draw.begun

/-- The update of a group seen again. -/
def groupSeen (id : Uuid) (now : Instant) (g : ResourceGroup) : ResourceGroup :=
  if g.id = id then {g with lastSeenAt := now, state := "active"} else g

theorem keeps_groupSeen (id : Uuid) (now : Instant) :
    Store.Keeps ResourceGroup.id ResourceGroup.key (groupSeen id now) := by
  constructor <;> intro g <;> unfold groupSeen <;> split_ifs <;> rfl

/-- The part of `upsert_resource` about resource groups. -/
def storeGroup (r : Resource) (s : Store) : Except Failure Store :=
  if r.resourceType = resourceGroupType then
    match s.groups.find? fun g => g.key = (tenantId, subscriptionId, host.py.lower r.name) with
    | none =>
      if Json.storableText (host.py.lower r.name) then
        s.insertGroup (newGroup host draw tenantId subscriptionId r)
      else .error .refused
    | some g => .ok (s.updateGroups (groupSeen g.id draw.now) (keeps_groupSeen g.id draw.now))
  else .ok s

def upsertResource (item : Json.Object) (s : Store) : Except Failure (Resource × Bool × Store) :=
  match item.get "id" with
  | none => .error (.missingKey "id")
  | some id => do
    let (r, changed, s) ← storeResource host session draw tenantId subscriptionId
      (itemValues host draw (host.py.str id) item) s
    let s ← storeGroup host draw tenantId subscriptionId r s
    return (r, changed, s)

end Upsert
end Sentinel.Inventory
