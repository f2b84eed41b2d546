import Sentinel.Library.Datetime
import Sentinel.Library.Jsonb
import Sentinel.Library.Table
import Sentinel.Library.Uuid

/-! The inventory tables, with the constraints of `schema.sql`.

A `Store` cannot break a uniqueness constraint: a statement that would is refused with the
name of the constraint. -/
namespace Sentinel.Inventory
open Library

structure Subscription where
  id : Uuid
  tenantId : Uuid
  azureSubscriptionId : Uuid
  displayName : String
  state : String
  lastSyncAt : Option Instant
  version : Nat

structure ResourceGroup where
  id : Uuid
  tenantId : Uuid
  subscriptionId : Uuid
  name : String
  normalizedName : String
  location : Option String
  tags : Json
  state : String
  lastSeenAt : Instant

inductive ResourceState where
  | active
  | missing
  | deleted
  | inaccessible
  deriving DecidableEq

/-- The value of the enumeration with this name. -/
def ResourceState.ofName : String → Option ResourceState
  | "active" => some .active
  | "missing" => some .missing
  | "deleted" => some .deleted
  | "inaccessible" => some .inaccessible
  | _ => none

structure Resource where
  id : Uuid
  tenantId : Uuid
  subscriptionId : Uuid
  azureResourceId : String
  normalizedResourceId : String
  resourceType : String
  name : String
  resourceGroup : String
  location : Option String
  kind : Option String
  sku : Option String
  tags : Json
  properties : Json
  provisioningState : Option String
  state : ResourceState
  firstSeenAt : Instant
  lastSeenAt : Instant
  missingSince : Option Instant
  version : Nat

inductive JobStatus where
  | queued
  | running
  | completed
  | failed
  deriving DecidableEq

/-- The job is over. -/
def JobStatus.final : JobStatus → Bool
  | .completed | .failed => true
  | _ => false

/-- `scope`: what a job is to look at. -/
structure Scope where
  subscriptionIds : List Uuid
  entraTenantId : Uuid
  deriving DecidableEq

structure ErrorSummary where
  type : String
  message : String
  deriving DecidableEq

structure SyncJob where
  id : Uuid
  tenantId : Uuid
  requestedBy : Uuid
  mode : String
  scope : Scope
  idempotencyKey : String
  status : JobStatus
  resourcesSeen : Nat
  resourcesChanged : Nat
  errorSummary : Option ErrorSummary
  correlationId : Uuid
  requestedAt : Instant
  startedAt : Option Instant
  completedAt : Option Instant
  heartbeatAt : Option Instant
  deriving DecidableEq

/-- `uq_subscription_azure`. -/
def Subscription.key (r : Subscription) : Uuid × Uuid := (r.tenantId, r.azureSubscriptionId)

/-- `uq_resource_group_scope`. -/
def ResourceGroup.key (g : ResourceGroup) : Uuid × Uuid × String := (g.tenantId, g.subscriptionId, g.normalizedName)

/-- `uq_resource_arm_id`. -/
def Resource.key (r : Resource) : Uuid × String := (r.tenantId, r.normalizedResourceId)

/-- `uq_sync_job_idempotency`. -/
def SyncJob.key (j : SyncJob) : Uuid × String := (j.tenantId, j.idempotencyKey)

structure Store where
  subscriptions : List Subscription
  groups : List ResourceGroup
  resources : List Resource
  jobs : List SyncJob
  subscriptionIds : Table.Unique Subscription.id subscriptions
  subscriptionKeys : Table.Unique Subscription.key subscriptions
  groupIds : Table.Unique ResourceGroup.id groups
  groupKeys : Table.Unique ResourceGroup.key groups
  resourceIds : Table.Unique Resource.id resources
  resourceKeys : Table.Unique Resource.key resources
  jobIds : Table.Unique SyncJob.id jobs
  jobKeys : Table.Unique SyncJob.key jobs

/-- Why a statement failed. -/
inductive Failure where
  /-- A column or a check constraint does not take the value. -/
  | refused
  | primaryKey
  | uqSubscriptionAzure
  | uqResourceGroupScope
  | uqResourceArmId
  | uqSyncJobIdempotency
  /-- `resources_tenant_isolation`. -/
  | rowSecurity
  /-- `KeyError`. -/
  | missingKey (key : String)
  deriving DecidableEq

namespace Store

def empty : Store where
  subscriptions := []
  groups := []
  resources := []
  jobs := []
  subscriptionIds := Table.unique_nil
  subscriptionKeys := Table.unique_nil
  groupIds := Table.unique_nil
  groupKeys := Table.unique_nil
  resourceIds := Table.unique_nil
  resourceKeys := Table.unique_nil
  jobIds := Table.unique_nil
  jobKeys := Table.unique_nil

def insertSubscription (s : Store) (r : Subscription) : Except Failure Store :=
  if hid : r.id ∈ s.subscriptions.map Subscription.id then .error .primaryKey
  else if hkey : r.key ∈ s.subscriptions.map Subscription.key then .error .uqSubscriptionAzure
  else .ok {s with
    subscriptions := s.subscriptions ++ [r]
    subscriptionIds := Table.unique_snoc.mpr ⟨hid, s.subscriptionIds⟩
    subscriptionKeys := Table.unique_snoc.mpr ⟨hkey, s.subscriptionKeys⟩}

def insertGroup (s : Store) (g : ResourceGroup) : Except Failure Store :=
  if hid : g.id ∈ s.groups.map ResourceGroup.id then .error .primaryKey
  else if hkey : g.key ∈ s.groups.map ResourceGroup.key then .error .uqResourceGroupScope
  else .ok {s with
    groups := s.groups ++ [g]
    groupIds := Table.unique_snoc.mpr ⟨hid, s.groupIds⟩
    groupKeys := Table.unique_snoc.mpr ⟨hkey, s.groupKeys⟩}

def insertResource (s : Store) (r : Resource) : Except Failure Store :=
  if hid : r.id ∈ s.resources.map Resource.id then .error .primaryKey
  else if hkey : r.key ∈ s.resources.map Resource.key then .error .uqResourceArmId
  else .ok {s with
    resources := s.resources ++ [r]
    resourceIds := Table.unique_snoc.mpr ⟨hid, s.resourceIds⟩
    resourceKeys := Table.unique_snoc.mpr ⟨hkey, s.resourceKeys⟩}

def insertJob (s : Store) (j : SyncJob) : Except Failure Store :=
  if hid : j.id ∈ s.jobs.map SyncJob.id then .error .primaryKey
  else if hkey : j.key ∈ s.jobs.map SyncJob.key then .error .uqSyncJobIdempotency
  else .ok {s with
    jobs := s.jobs ++ [j]
    jobIds := Table.unique_snoc.mpr ⟨hid, s.jobIds⟩
    jobKeys := Table.unique_snoc.mpr ⟨hkey, s.jobKeys⟩}

/-- An update that leaves the id and the unique key of a row alone. -/
structure Keeps {ρ κ : Type} (id : ρ → Uuid) (key : ρ → κ) (f : ρ → ρ) : Prop where
  id : ∀ r, id (f r) = id r
  key : ∀ r, key (f r) = key r

def updateSubscriptions (s : Store) (f : Subscription → Subscription)
    (hf : Keeps Subscription.id Subscription.key f) : Store :=
  {s with
    subscriptions := s.subscriptions.map f
    subscriptionIds := s.subscriptionIds.rewrite hf.id
    subscriptionKeys := s.subscriptionKeys.rewrite hf.key}

def updateGroups (s : Store) (f : ResourceGroup → ResourceGroup)
    (hf : Keeps ResourceGroup.id ResourceGroup.key f) : Store :=
  {s with
    groups := s.groups.map f
    groupIds := s.groupIds.rewrite hf.id
    groupKeys := s.groupKeys.rewrite hf.key}

def updateResources (s : Store) (f : Resource → Resource) (hf : Keeps Resource.id Resource.key f) : Store :=
  {s with
    resources := s.resources.map f
    resourceIds := s.resourceIds.rewrite hf.id
    resourceKeys := s.resourceKeys.rewrite hf.key}

def updateJobs (s : Store) (f : SyncJob → SyncJob) (hf : Keeps SyncJob.id SyncJob.key f) : Store :=
  {s with
    jobs := s.jobs.map f
    jobIds := s.jobIds.rewrite hf.id
    jobKeys := s.jobKeys.rewrite hf.key}

end Store
end Sentinel.Inventory
