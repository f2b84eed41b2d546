import Sentinel.Inventory.Main
import Sentinel.Inventory.Jobs
import Sentinel.Inventory.Outcome

/-! Which transactions reach `inventory.resources`, and under which setting.

The policy of the table compares `app.tenant_id` with the tenant of each row. `UnitOfWork`
sets it, for the endpoints; the worker opens its sessions itself and never does. So the
transaction that stores a provider's result reaches rows of the job's tenant without a
setting, from its first item on (`isolated_iff`); `rejected` is one a role without `BYPASSRLS`
cannot commit. -/
namespace Sentinel.Inventory
open Library Common Library.Transition

/-- A transaction of the service or of a worker, with what reaches it from outside. -/
inductive Transaction where
  | listResources (tenantId : Uuid) (q : ResourceQuery)
  | getResource (tenantId resourceId : Uuid)
  | listSubscriptions (tenantId : Uuid)
  | listResourceGroups (tenantId : Uuid)
  | discover (tenantId : Uuid) (ids : Nat → Uuid) (discovered : List AzureSubscription)
  | createSyncJob (id : Uuid) (requestedAt : Instant) (r : JobRequest)
  | claim (locked : List Uuid) (now : Instant)
  | register (job : SyncJob) (available : List AzureSubscription) (ids : Nat → Uuid)
  | store (job : SyncJob) (subscriptions : List (Uuid × Subscription)) (items : List Json.Object)
      (draws : Nat → Draw) (now : Instant)
  | fail (job : SyncJob) (error : ErrorSummary) (now : Instant)

/-- What a transaction hands back. -/
inductive Answer where
  | page (rows : List Resource) (cursor : Option String)
  | resource (r : Option Resource)
  | subscriptions (rows : List Subscription)
  | groups (rows : List ResourceGroup)
  | unregistered
  | job (j : Option SyncJob)
  | registered (subscriptions : List (Uuid × Subscription))
  | projections (ps : List Projection)
  | done

section Run
variable (host : Host)

/-- `app.tenant_id`. -/
def Transaction.setting : Transaction → Option Uuid
  | .listResources tenantId _ | .getResource tenantId _ | .listSubscriptions tenantId
  | .listResourceGroups tenantId | .discover tenantId _ _ => some tenantId
  | .createSyncJob _ _ r => some r.tenantId
  | .claim _ _ | .register _ _ _ | .store _ _ _ _ _ | .fail _ _ _ => none

/-- The transaction under a role, which bypasses row-level security or does not. -/
def Transaction.run (bypass : Bool) (tx : Transaction) (s : Store) : Except ErrorSummary (Answer × Store) :=
  match tx with
  | .listResources tenantId q =>
    ((Inventory.listResources host (unitOfWork bypass tenantId) tenantId q s).mapError host.describe).map
      fun (rows, cursor) => (.page rows cursor, s)
  | .getResource tenantId resourceId =>
    .ok (.resource (Inventory.getResource (unitOfWork bypass tenantId) tenantId resourceId s), s)
  | .listSubscriptions tenantId => .ok (.subscriptions (Inventory.listSubscriptions host tenantId s), s)
  | .listResourceGroups tenantId => .ok (.groups (Inventory.listResourceGroups host tenantId s), s)
  | .discover tenantId ids discovered =>
    ((discoverSubscriptions tenantId ids discovered 0 s).mapError host.describe).map
      fun (rows, s) => (.subscriptions rows, s)
  | .createSyncJob id requestedAt r =>
    if Inventory.registered host r s then
      ((Inventory.createSyncJob id requestedAt r s).mapError host.describe).map fun (job, s) => (.job (some job), s)
    else .ok (.unregistered, s)
  | .claim locked now =>
    match selectJob locked s with
    | none => .ok (.job none, s)
    | some job => .ok (.job (some (Inventory.claim now job)), s.writeJob job.id (Inventory.claim now) (keeps_claim now))
  | .register job available ids =>
    (Inventory.register host job available ids job.scope.subscriptionIds 0 [] s).map
      fun (subscriptions, s) => (.registered subscriptions, s)
  | .store job subscriptions items draws now =>
    (storeItems host ⟨bypass, none⟩ job subscriptions draws items 0 s).map fun (projections, changed, s) =>
      (.projections projections, s.writeJob job.id (complete items.length changed now) (keeps_complete _ _ now))
  | .fail job error now => .ok (.done, s.writeJob job.id (Inventory.fail error now) (keeps_fail error now))

/-- The rows an upsert is about: the one it reads and what it makes of it, or the one it adds. -/
def upsertAccesses (draw : Draw) (tenantId subscriptionId : Uuid) (item : Json.Object) (s : Store) : List Resource :=
  match item.get "id" with
  | none => []
  | some id =>
    match s.resources.find? (isResource tenantId (itemValues host draw (host.py.str id) item).normalizedResourceId) with
    | none => [newResource draw tenantId subscriptionId (itemValues host draw (host.py.str id) item)]
    | some r => [r, seenAgain (itemValues host draw (host.py.str id) item) r]

/-- The rows the storing loop is about, one upsert after the other. -/
def storeAccesses (job : SyncJob) (subscriptions : List (Uuid × Subscription)) (draws : Nat → Draw) :
    List Json.Object → Nat → Store → List Resource
  | [], _, _ => []
  | item :: rest, n, s =>
    match subscriptionOf host subscriptions item with
    | .error _ => []
    | .ok subscription =>
      upsertAccesses host (draws n) job.tenantId subscription.id item s ++
        match upsertResource host ⟨true, none⟩ (draws n) job.tenantId subscription.id item s with
        | .error _ => []
        | .ok (_, _, s) => storeAccesses job subscriptions draws rest (n + 1) s

/-- The rows of `inventory.resources` the statements of a transaction are about, whatever the
policy says. -/
def Transaction.accesses (tx : Transaction) (s : Store) : List Resource :=
  match tx with
  | .listResources tenantId q =>
    match readFilter ResourceState.ofName q.state, readFilter host.decodeCursor q.cursor with
    | .ok state, .ok after => s.resources.filter (q.admits host tenantId state after)
    | _, _ => []
  | .getResource tenantId resourceId => s.resources.filter fun r => r.tenantId = tenantId && r.id = resourceId
  | .store job subscriptions items draws _ => storeAccesses host job subscriptions draws items 0 s
  | _ => []

/-- Every row is reached under the setting of its tenant, and the policy neither hides a row
nor rejects a write. -/
structure Isolated (tx : Transaction) (s : Store) : Prop where
  own : ∀ r ∈ tx.accesses host s, tx.setting = some r.tenantId
  unaffected : tx.run host false s = tx.run host true s

/-- The transaction does not store a result, or its first item names no subscription of the
job or no id. -/
def Transaction.Sparing (tx : Transaction) : Prop :=
  match tx with
  | .store _ subscriptions items _ _ => ∀ item ∈ items.head?,
    (∃ error, subscriptionOf host subscriptions item = .error error) ∨ item.get "id" = none
  | _ => True

end Run

variable {host : Host} {s : Store}

/-- The policy shows the tenant's own rows to `UnitOfWork`. -/
theorem sees_unitOfWork (bypass : Bool) {tenantId : Uuid} {r : Resource} (h : r.tenantId = tenantId) :
    (unitOfWork bypass tenantId).sees r := by
  simp [Session.sees, unitOfWork, h]

/-- So a query for its rows is the same under either role. -/
theorem sees_and_unitOfWork (bypass : Bool) {tenantId : Uuid} {p : Resource → Bool}
    (hp : ∀ r, p r → r.tenantId = tenantId) :
    (fun r => (unitOfWork bypass tenantId).sees r && p r) = p := by
  funext r
  by_cases h : p r
  · rw [sees_unitOfWork bypass (hp r h), Bool.true_and]
  · rw [Bool.eq_false_iff.mpr h, Bool.and_false]

theorem listResources_unitOfWork (bypass : Bool) (tenantId : Uuid) (q : ResourceQuery) :
    listResources host (unitOfWork bypass tenantId) tenantId q s =
      listResources host (unitOfWork true tenantId) tenantId q s := by
  unfold listResources
  simp only [sees_and_unitOfWork bypass fun r => tenantId_of_admits, sees_and_unitOfWork true fun r => tenantId_of_admits]

theorem getResource_unitOfWork (bypass : Bool) (tenantId resourceId : Uuid) :
    getResource (unitOfWork bypass tenantId) tenantId resourceId s =
      getResource (unitOfWork true tenantId) tenantId resourceId s := by
  have htenant : ∀ r : Resource, (r.tenantId = tenantId && r.id = resourceId) → r.tenantId = tenantId := by
    intro r hr
    simp only [Bool.and_eq_true, decide_eq_true_eq] at hr
    exact hr.1
  unfold getResource
  rw [sees_and_unitOfWork bypass htenant, sees_and_unitOfWork true htenant]

/-- An upsert reaches a row. -/
theorem upsertAccesses_ne_nil {draw : Draw} {tenantId subscriptionId : Uuid} {item : Json.Object} {id : Json}
    (hid : item.get "id" = some id) : upsertAccesses host draw tenantId subscriptionId item s ≠ [] := by
  unfold upsertAccesses
  rw [hid]
  dsimp only
  split <;> simp

/-- **Row-level security** is respected by every transaction of the service, and of the worker by
every one but those that store a provider's result whose first item names a subscription of
the job and an id. -/
theorem isolated_iff (host : Host) (tx : Transaction) (s : Store) : Isolated host tx s ↔ tx.Sparing host := by
  cases tx with
  | listResources tenantId q =>
    refine iff_of_true ⟨fun r hr => ?_, ?_⟩ trivial
    · unfold Transaction.accesses at hr
      dsimp only at hr
      split at hr
      · rw [tenantId_of_admits (List.mem_filter.mp hr).2]
        rfl
      · cases hr
    · simp only [Transaction.run, listResources_unitOfWork false]
  | getResource tenantId resourceId =>
    refine iff_of_true ⟨fun r hr => ?_, ?_⟩ trivial
    · have hmem := (List.mem_filter.mp hr).2
      simp only [Bool.and_eq_true, decide_eq_true_eq] at hmem
      rw [hmem.1]
      rfl
    · simp only [Transaction.run, getResource_unitOfWork false]
  | listSubscriptions | listResourceGroups | discover | createSyncJob | claim | register | fail =>
    exact iff_of_true ⟨(fun _ hr => nomatch hr), rfl⟩ trivial
  | store job subscriptions items draws now =>
    cases items with
    | nil => exact iff_of_true ⟨(fun _ hr => nomatch hr), rfl⟩ fun _ hnone => nomatch hnone
    | cons item rest =>
      refine ⟨?_, ?_⟩
      · intro h item' hitem'
        obtain rfl := Option.some.inj hitem'
        cases hsubscription : subscriptionOf host subscriptions item with
        | error error => exact .inl ⟨error, rfl⟩
        | ok subscription =>
          cases hid : item.get "id" with
          | none => exact .inr rfl
          | some id =>
            have hreached : upsertAccesses host (draws 0) job.tenantId subscription.id item s ≠ [] :=
              upsertAccesses_ne_nil hid
            obtain ⟨r, hr⟩ := List.exists_mem_of_ne_nil _ hreached
            have haccess : r ∈ (Transaction.store job subscriptions (item :: rest) draws now).accesses host s := by
              simp only [Transaction.accesses, storeAccesses, hsubscription]
              exact List.mem_append_left _ hr
            cases h.own r haccess
      · intro h
        cases hsubscription : subscriptionOf host subscriptions item with
        | error error =>
          refine ⟨fun r hr => ?_, ?_⟩
          · simp only [Transaction.accesses, storeAccesses, hsubscription] at hr
            cases hr
          · simp only [Transaction.run, storeItems, hsubscription]
            rfl
        | ok subscription =>
          rcases h item rfl with ⟨error, herror⟩ | hid
          · cases herror.symm.trans hsubscription
          · refine ⟨fun r hr => ?_, ?_⟩
            · simp only [Transaction.accesses, storeAccesses, hsubscription, upsertAccesses, upsertResource, hid] at hr
              cases hr
            · simp only [Transaction.run, storeItems, hsubscription, upsertResource, hid]
              rfl

/-! ### A result that is rejected -/

/-- The roles of the services do not bypass row-level security. -/
def restrictedHost : Host := {sampleHost with bypass := false}

/-- The transaction that stores the one resource of a claimed job. -/
def sampleStore : Transaction :=
  .store sampleJob [(3, newSubscription 30 1 3 "prod" "Enabled")] [sampleItem] sampleDraws 3

/-- Under such a role the policy rejects what a claimed job stores, and it would store it
otherwise. -/
theorem rejected : ∃ s, run (step restrictedHost) (claimed ++ sampleQuery.map (.worker 0)) initial = some s ∧
    s.workers = [.storing sampleJob [(3, newSubscription 30 1 3 "prod" "Enabled")] [sampleItem]] ∧
    sampleStore.run restrictedHost false s.shared.store = .error (restrictedHost.describe .rowSecurity) ∧
    ¬ Isolated restrictedHost sampleStore s.shared.store := by
  have hworkers : (run (step restrictedHost) (claimed ++ sampleQuery.map (.worker 0)) initial).map State.workers =
      some [.storing sampleJob [(3, newSubscription 30 1 3 "prod" "Enabled")] [sampleItem]] := by rfl
  have hrejected : (run (step restrictedHost) (claimed ++ sampleQuery.map (.worker 0)) initial).map
      (fun s => sampleStore.run restrictedHost false s.shared.store) =
        some (.error (restrictedHost.describe .rowSecurity)) := by rfl
  have hstored : (run (step restrictedHost) (claimed ++ sampleQuery.map (.worker 0)) initial).map
      (fun s => (sampleStore.run restrictedHost true s.shared.store).toOption.isSome) = some true := by
    decide +kernel
  obtain ⟨s, hrun, hs⟩ := Option.map_eq_some_iff.mp hworkers
  rw [hrun, Option.map_some] at hrejected hstored
  refine ⟨s, hrun, hs, Option.some.inj hrejected, fun h => ?_⟩
  rw [← h.unaffected, Option.some.inj hrejected] at hstored
  cases hstored

end Sentinel.Inventory
