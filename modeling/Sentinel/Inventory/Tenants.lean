import Sentinel.Inventory.Main
import Sentinel.Inventory.Rows
import Sentinel.Library.Unwinding

/-! The inventory as one tenant sees it.

`Store.of` keeps the rows of a tenant. A function called for the tenant does to these what
it does to the whole store (`…_of`), if the ids it draws are not in another tenant's rows;
and it writes to the rows of no other tenant (`…_written`). -/
namespace Sentinel.Inventory
open Library Library.Table Common

attribute [ext] Store

/-- The rows of a tenant. -/
def Store.of (s : Store) (tenantId : Uuid) : Store where
  subscriptions := ofOwner Subscription.tenantId tenantId s.subscriptions
  groups := ofOwner ResourceGroup.tenantId tenantId s.groups
  resources := ofOwner Resource.tenantId tenantId s.resources
  jobs := ofOwner SyncJob.tenantId tenantId s.jobs
  subscriptionIds := s.subscriptionIds.ofOwner
  subscriptionKeys := s.subscriptionKeys.ofOwner
  groupIds := s.groupIds.ofOwner
  groupKeys := s.groupKeys.ofOwner
  resourceIds := s.resourceIds.ofOwner
  resourceKeys := s.resourceKeys.ofOwner
  jobIds := s.jobIds.ofOwner
  jobKeys := s.jobKeys.ofOwner

/-- What the statements of one tenant do to the tables. -/
structure Store.WrittenBy (tenantId : Uuid) (s t : Store) : Prop where
  subscriptions : Table.WrittenBy Subscription.tenantId Subscription.id tenantId s.subscriptions t.subscriptions
  groups : Table.WrittenBy ResourceGroup.tenantId ResourceGroup.id tenantId s.groups t.groups
  resources : Table.WrittenBy Resource.tenantId Resource.id tenantId s.resources t.resources
  jobs : Table.WrittenBy SyncJob.tenantId SyncJob.id tenantId s.jobs t.jobs

section Functions
variable {host : Host} {session : Session} {draw : Draw} {tenantId subscriptionId : Uuid} {s s' t : Store}

theorem Store.WrittenBy.refl (s : Store) : Store.WrittenBy tenantId s s := ⟨.refl _, .refl _, .refl _, .refl _⟩

theorem Store.WrittenBy.trans (h : Store.WrittenBy tenantId s s') (h' : Store.WrittenBy tenantId s' t) :
    Store.WrittenBy tenantId s t where
  subscriptions := h.subscriptions.trans h'.subscriptions
  groups := h.groups.trans h'.groups
  resources := h.resources.trans h'.resources
  jobs := h.jobs.trans h'.jobs

/-- The other tenants keep their rows. -/
theorem Store.WrittenBy.others (h : Store.WrittenBy tenantId s s') {other : Uuid} (hne : other ≠ tenantId) :
    s'.of other = s.of other := by
  ext1
  · exact h.subscriptions.others other hne
  · exact h.groups.others other hne
  · exact h.resources.others other hne
  · exact h.jobs.others other hne

/-! ### Statements -/

theorem insertSubscription_of {r : Subscription} (hr : r.tenantId = tenantId)
    (hnew : NewTo Subscription.tenantId Subscription.id tenantId s.subscriptions r.id) :
    (s.of tenantId).insertSubscription r = (s.insertSubscription r).map fun s => s.of tenantId := by
  have hid : r.id ∈ (s.of tenantId).subscriptions.map Subscription.id ↔ r.id ∈ s.subscriptions.map Subscription.id :=
    hnew.mem_ids
  have hkey : r.key ∈ (s.of tenantId).subscriptions.map Subscription.key ↔
      r.key ∈ s.subscriptions.map Subscription.key :=
    mem_keys_ofOwner fun q _ heq => (Prod.mk.inj heq).1.trans hr
  unfold Store.insertSubscription
  simp only [hid, hkey]
  split_ifs
  · rfl
  · rfl
  · refine congrArg Except.ok (Store.ext ?_ rfl rfl rfl)
    exact (ofOwner_snoc_own hr).symm

theorem insertGroup_of {g : ResourceGroup} (hg : g.tenantId = tenantId)
    (hnew : NewTo ResourceGroup.tenantId ResourceGroup.id tenantId s.groups g.id) :
    (s.of tenantId).insertGroup g = (s.insertGroup g).map fun s => s.of tenantId := by
  have hid : g.id ∈ (s.of tenantId).groups.map ResourceGroup.id ↔ g.id ∈ s.groups.map ResourceGroup.id :=
    hnew.mem_ids
  have hkey : g.key ∈ (s.of tenantId).groups.map ResourceGroup.key ↔ g.key ∈ s.groups.map ResourceGroup.key :=
    mem_keys_ofOwner fun q _ heq => (Prod.mk.inj heq).1.trans hg
  unfold Store.insertGroup
  simp only [hid, hkey]
  split_ifs
  · rfl
  · rfl
  · refine congrArg Except.ok (Store.ext rfl ?_ rfl rfl)
    exact (ofOwner_snoc_own hg).symm

theorem insertResource_of {r : Resource} (hr : r.tenantId = tenantId)
    (hnew : NewTo Resource.tenantId Resource.id tenantId s.resources r.id) :
    (s.of tenantId).insertResource r = (s.insertResource r).map fun s => s.of tenantId := by
  have hid : r.id ∈ (s.of tenantId).resources.map Resource.id ↔ r.id ∈ s.resources.map Resource.id :=
    hnew.mem_ids
  have hkey : r.key ∈ (s.of tenantId).resources.map Resource.key ↔ r.key ∈ s.resources.map Resource.key :=
    mem_keys_ofOwner fun q _ heq => (Prod.mk.inj heq).1.trans hr
  unfold Store.insertResource
  simp only [hid, hkey]
  split_ifs
  · rfl
  · rfl
  · refine congrArg Except.ok (Store.ext rfl rfl ?_ rfl)
    exact (ofOwner_snoc_own hr).symm

theorem insertJob_of {j : SyncJob} (hj : j.tenantId = tenantId)
    (hnew : NewTo SyncJob.tenantId SyncJob.id tenantId s.jobs j.id) :
    (s.of tenantId).insertJob j = (s.insertJob j).map fun s => s.of tenantId := by
  have hid : j.id ∈ (s.of tenantId).jobs.map SyncJob.id ↔ j.id ∈ s.jobs.map SyncJob.id := hnew.mem_ids
  have hkey : j.key ∈ (s.of tenantId).jobs.map SyncJob.key ↔ j.key ∈ s.jobs.map SyncJob.key :=
    mem_keys_ofOwner fun q _ heq => (Prod.mk.inj heq).1.trans hj
  unfold Store.insertJob
  simp only [hid, hkey]
  split_ifs
  · rfl
  · rfl
  · refine congrArg Except.ok (Store.ext rfl rfl rfl ?_)
    exact (ofOwner_snoc_own hj).symm

theorem updateSubscriptions_of {f : Subscription → Subscription}
    (hf : Store.Keeps Subscription.id Subscription.key f) :
    (s.updateSubscriptions f hf).of tenantId = (s.of tenantId).updateSubscriptions f hf :=
  Store.ext (ofOwner_rewrite fun r => congrArg Prod.fst (hf.key r)) rfl rfl rfl

theorem updateGroups_of {f : ResourceGroup → ResourceGroup} (hf : Store.Keeps ResourceGroup.id ResourceGroup.key f) :
    (s.updateGroups f hf).of tenantId = (s.of tenantId).updateGroups f hf :=
  Store.ext rfl (ofOwner_rewrite fun g => congrArg Prod.fst (hf.key g)) rfl rfl

theorem updateResources_of {f : Resource → Resource} (hf : Store.Keeps Resource.id Resource.key f) :
    (s.updateResources f hf).of tenantId = (s.of tenantId).updateResources f hf :=
  Store.ext rfl rfl (ofOwner_rewrite fun r => congrArg Prod.fst (hf.key r)) rfl

/-! ### Queries -/

theorem listResources_of (q : ResourceQuery) :
    listResources host session tenantId q (s.of tenantId) = listResources host session tenantId q s := by
  have hrows : ∀ state after,
      (s.of tenantId).resources.filter (fun r => session.sees r && q.admits host tenantId state after r) =
        s.resources.filter fun r => session.sees r && q.admits host tenantId state after r := by
    intro state after
    exact filter_ofOwner fun r hr => tenantId_of_admits (Bool.and_eq_true_iff.mp hr).2
  unfold listResources
  simp only [hrows]

theorem getResource_of (resourceId : Uuid) :
    getResource session tenantId resourceId (s.of tenantId) = getResource session tenantId resourceId s := by
  refine find?_ofOwner fun r hr => ?_
  simp only [Bool.and_eq_true, decide_eq_true_eq] at hr
  exact hr.2.1

theorem listSubscriptions_of : listSubscriptions host tenantId (s.of tenantId) = listSubscriptions host tenantId s := by
  unfold listSubscriptions
  rw [show (s.of tenantId).subscriptions.filter (fun r => r.tenantId = tenantId) = _ from
    filter_ofOwner fun r hr => of_decide_eq_true hr]

theorem listResourceGroups_of :
    listResourceGroups host tenantId (s.of tenantId) = listResourceGroups host tenantId s := by
  unfold listResourceGroups
  rw [show (s.of tenantId).groups.filter (fun g => g.tenantId = tenantId) = _ from
    filter_ofOwner fun g hg => of_decide_eq_true hg]

/-! ### Jobs and upserts -/

theorem findJob_of (idempotencyKey : String) :
    findJob tenantId idempotencyKey (s.of tenantId) = findJob tenantId idempotencyKey s :=
  find?_ofOwner fun _ hj => (Prod.mk.inj (of_decide_eq_true hj)).1

theorem createSyncJob_of {id : Uuid} {requestedAt : Instant} {r : JobRequest}
    (hnew : NewTo SyncJob.tenantId SyncJob.id r.tenantId s.jobs id) :
    createSyncJob id requestedAt r (s.of r.tenantId) =
      (createSyncJob id requestedAt r s).map fun p => (p.1, p.2.of r.tenantId) := by
  unfold createSyncJob insertNewJob
  rw [findJob_of]
  cases findJob r.tenantId r.idempotencyKey s with
  | some job => rfl
  | none =>
    have hinsert : (s.of r.tenantId).insertJob (newJob id requestedAt r) = _ := insertJob_of rfl hnew
    dsimp only
    by_cases htaken : r.taken
    · rw [if_pos htaken, if_pos htaken, hinsert]
      cases s.insertJob (newJob id requestedAt r) <;> rfl
    · rw [if_neg htaken, if_neg htaken]
      rfl

theorem createSyncJob_written {id : Uuid} {requestedAt : Instant} {r : JobRequest} {job : SyncJob}
    (h : createSyncJob id requestedAt r s = .ok (job, s')) : Store.WrittenBy r.tenantId s s' := by
  rcases createSyncJob_cases h with ⟨-, rfl⟩ | ⟨-, -, -, hinsert⟩
  · exact .refl _
  · obtain ⟨hjobs, hsubscriptions, hgroups, hresources⟩ := insertJob_rows hinsert
    refine ⟨.of_eq hsubscriptions, .of_eq hgroups, .of_eq hresources, ?_⟩
    rw [hjobs]
    exact writtenBy_snoc rfl

theorem findSubscription_of (azureSubscriptionId : Uuid) :
    findSubscription tenantId azureSubscriptionId (s.of tenantId) =
      findSubscription tenantId azureSubscriptionId s :=
  find?_ofOwner fun _ hr => (Prod.mk.inj (of_decide_eq_true hr)).1

theorem upsertSubscription_of {id azureSubscriptionId : Uuid} {displayName state : String}
    (hnew : NewTo Subscription.tenantId Subscription.id tenantId s.subscriptions id) :
    upsertSubscription id tenantId azureSubscriptionId displayName state (s.of tenantId) =
      (upsertSubscription id tenantId azureSubscriptionId displayName state s).map fun p =>
        (p.1, p.2.of tenantId) := by
  unfold upsertSubscription
  rw [findSubscription_of]
  by_cases htaken : (!([displayName, state].all Json.storableText)) = true
  · rw [if_pos htaken, if_pos htaken]
    rfl
  · rw [if_neg htaken, if_neg htaken]
    cases findSubscription tenantId azureSubscriptionId s with
    | some r => exact congrArg (fun t => Except.ok (_, t)) (updateSubscriptions_of _).symm
    | none =>
      have hinsert : (s.of tenantId).insertSubscription
          (newSubscription id tenantId azureSubscriptionId displayName state) = _ := insertSubscription_of rfl hnew
      dsimp only
      rw [hinsert]
      cases s.insertSubscription (newSubscription id tenantId azureSubscriptionId displayName state) <;> rfl

theorem upsertSubscription_written {id azureSubscriptionId : Uuid} {displayName state : String} {r : Subscription}
    (h : upsertSubscription id tenantId azureSubscriptionId displayName state s = .ok (r, s')) :
    Store.WrittenBy tenantId s s' := by
  obtain ⟨hgroups, hresources, hjobs⟩ := upsertSubscription_frame h
  refine ⟨?_, .of_eq hgroups, .of_eq hresources, .of_eq hjobs⟩
  rcases upsertSubscription_cases h with ⟨-, rfl, hinsert⟩ | ⟨old, hold, -, rfl⟩
  · rw [(insertSubscription_rows hinsert).1]
    exact writtenBy_snoc rfl
  · have hmem : old ∈ s.subscriptions := List.mem_of_find?_eq_some hold
    have hkey : old.key = (tenantId, azureSubscriptionId) := by simpa using List.find?_some hold
    have howner : old.tenantId = tenantId := (Prod.mk.inj hkey).1
    have hkeeps := keeps_rediscovered old.id displayName state
    refine writtenBy_map (fun q => congrArg Prod.fst (hkeeps.key q)) hkeeps.id fun q hq hother => if_neg ?_
    exact s.subscriptionIds.ne hq hmem (howner ▸ hother)

theorem storeResource_of {v : ItemValues}
    (hnew : NewTo Resource.tenantId Resource.id tenantId s.resources draw.id) :
    storeResource host session draw tenantId subscriptionId v (s.of tenantId) =
      (storeResource host session draw tenantId subscriptionId v s).map fun p =>
        (p.1, p.2.1, p.2.2.of tenantId) := by
  have hfind : (s.of tenantId).resources.find?
        (fun r => session.sees r && isResource tenantId v.normalizedResourceId r) =
      s.resources.find? fun r => session.sees r && isResource tenantId v.normalizedResourceId r := by
    refine find?_ofOwner fun r hr => ?_
    have hkey : r.key = (tenantId, v.normalizedResourceId) := of_decide_eq_true (Bool.and_eq_true_iff.mp hr).2
    exact (Prod.mk.inj hkey).1
  unfold storeResource
  rw [hfind]
  cases s.resources.find? fun r => session.sees r && isResource tenantId v.normalizedResourceId r with
  | none =>
    have hinsert : (s.of tenantId).insertResource (newResource draw tenantId subscriptionId v).stored = _ :=
      insertResource_of rfl hnew
    dsimp only
    split_ifs
    · rfl
    · rfl
    · rw [hinsert]
      cases s.insertResource (newResource draw tenantId subscriptionId v).stored <;> rfl
  | some r =>
    dsimp only
    split_ifs
    · exact congrArg (fun t => Except.ok (_, _, t)) (updateResources_of _).symm
    · rfl

theorem storeResource_written {v : ItemValues} {r : Resource} {changed : Bool}
    (h : storeResource host session draw tenantId subscriptionId v s = .ok (r, changed, s')) :
    Store.WrittenBy tenantId s s' := by
  obtain ⟨hsubscriptions, hgroups, hjobs⟩ := storeResource_frame h
  refine ⟨.of_eq hsubscriptions, .of_eq hgroups, ?_, .of_eq hjobs⟩
  obtain ⟨-, ⟨-, rfl, -, hinsert⟩ | ⟨old, -, -, rfl⟩⟩ := storeResource_cases h
  · rw [(insertResource_rows hinsert).1]
    exact writtenBy_snoc rfl
  · have hkeeps := keeps_resourceUpdate tenantId v
    refine writtenBy_map (fun q => congrArg Prod.fst (hkeeps.key q)) hkeeps.id fun q _ hother => if_neg ?_
    exact fun heq => hother (Prod.mk.inj heq).1

theorem storeGroup_of {r : Resource}
    (hnew : NewTo ResourceGroup.tenantId ResourceGroup.id tenantId s.groups draw.groupId) :
    storeGroup host draw tenantId subscriptionId r (s.of tenantId) =
      (storeGroup host draw tenantId subscriptionId r s).map fun s => s.of tenantId := by
  have hfind : (s.of tenantId).groups.find?
        (fun g => g.key = (tenantId, subscriptionId, host.py.lower r.name)) =
      s.groups.find? fun g => g.key = (tenantId, subscriptionId, host.py.lower r.name) :=
    find?_ofOwner fun _ hg => (Prod.mk.inj (of_decide_eq_true hg)).1
  unfold storeGroup
  rw [hfind]
  by_cases htype : r.resourceType = resourceGroupType
  · rw [if_pos htype, if_pos htype]
    cases s.groups.find? fun g => g.key = (tenantId, subscriptionId, host.py.lower r.name) with
    | none =>
      dsimp only
      split_ifs
      · exact insertGroup_of rfl hnew
      · rfl
    | some g => exact congrArg Except.ok (updateGroups_of _).symm
  · rw [if_neg htype, if_neg htype]
    rfl

theorem storeGroup_written {r : Resource} (h : storeGroup host draw tenantId subscriptionId r s = .ok s') :
    Store.WrittenBy tenantId s s' := by
  obtain ⟨hsubscriptions, hresources, hjobs⟩ := storeGroup_frame h
  refine ⟨.of_eq hsubscriptions, ?_, .of_eq hresources, .of_eq hjobs⟩
  rcases storeGroup_cases h with ⟨-, rfl⟩ | ⟨-, ⟨-, hinsert⟩ | ⟨g, hfind, rfl⟩⟩
  · exact .refl _
  · rw [(insertGroup_rows hinsert).1]
    exact writtenBy_snoc rfl
  · have hmem : g ∈ s.groups := List.mem_of_find?_eq_some hfind
    have hkey : g.key = (tenantId, subscriptionId, host.py.lower r.name) := by simpa using List.find?_some hfind
    have howner : g.tenantId = tenantId := (Prod.mk.inj hkey).1
    have hkeeps := keeps_groupSeen g.id draw.now
    refine writtenBy_map (fun q => congrArg Prod.fst (hkeeps.key q)) hkeeps.id fun q hq hother => if_neg ?_
    exact s.groupIds.ne hq hmem (howner ▸ hother)

theorem upsertResource_of {item : Json.Object}
    (hnew : NewTo Resource.tenantId Resource.id tenantId s.resources draw.id)
    (hnewGroup : NewTo ResourceGroup.tenantId ResourceGroup.id tenantId s.groups draw.groupId) :
    upsertResource host session draw tenantId subscriptionId item (s.of tenantId) =
      (upsertResource host session draw tenantId subscriptionId item s).map fun p =>
        (p.1, p.2.1, p.2.2.of tenantId) := by
  unfold upsertResource
  cases item.get "id" with
  | none => rfl
  | some id =>
    dsimp only
    rw [storeResource_of hnew]
    cases hstore : storeResource host session draw tenantId subscriptionId
        (itemValues host draw (host.py.str id) item) s with
    | error f => rfl
    | ok p =>
      obtain ⟨r, changed, t⟩ := p
      rw [← (storeResource_frame hstore).2.1] at hnewGroup
      have hgroup : storeGroup host draw tenantId subscriptionId r (t.of tenantId) = _ := storeGroup_of hnewGroup
      show (storeGroup host draw tenantId subscriptionId r (t.of tenantId) >>= _) =
        Except.map _ (storeGroup host draw tenantId subscriptionId r t >>= _)
      rw [hgroup]
      cases storeGroup host draw tenantId subscriptionId r t <;> rfl

theorem upsertResource_written {item : Json.Object} {r : Resource} {changed : Bool}
    (h : upsertResource host session draw tenantId subscriptionId item s = .ok (r, changed, s')) :
    Store.WrittenBy tenantId s s' := by
  obtain ⟨id, t, -, hstore, hgroup⟩ := upsertResource_eq_ok.mp h
  exact (storeResource_written hstore).trans (storeGroup_written hgroup)

end Functions

/-! ### Operations -/

/-- A call of `InventoryRepository`, in a transaction of its own, with the ids it would draw.
An item is stored under the row of its subscription, which the foreign keys find. -/
inductive Operation where
  | listResources (session : Session) (tenantId : Uuid) (q : ResourceQuery)
  | getResource (session : Session) (tenantId resourceId : Uuid)
  | listSubscriptions (tenantId : Uuid)
  | listResourceGroups (tenantId : Uuid)
  | createSyncJob (id : Uuid) (requestedAt : Instant) (r : JobRequest)
  | upsertSubscription (id tenantId azureSubscriptionId : Uuid) (displayName state : String)
  | upsertResource (session : Session) (draw : Draw) (subscription : Subscription) (item : Json.Object)

/-- The tenant the call is for. -/
def Operation.tenantId : Operation → Uuid
  | .listResources _ tenantId _ => tenantId
  | .getResource _ tenantId _ => tenantId
  | .listSubscriptions tenantId => tenantId
  | .listResourceGroups tenantId => tenantId
  | .createSyncJob _ _ r => r.tenantId
  | .upsertSubscription _ tenantId _ _ _ => tenantId
  | .upsertResource _ _ subscription _ => subscription.tenantId

inductive Reply where
  | resources (result : Except Failure (List Resource × Option String))
  | resource (result : Option Resource)
  | subscriptions (result : List Subscription)
  | resourceGroups (result : List ResourceGroup)
  | job (result : Except Failure SyncJob)
  | subscription (result : Except Failure Subscription)
  | stored (result : Except Failure (Resource × Bool))

section Run
variable (host : Host) {tenantId : Uuid} {s s' : Store}

def runOperation (op : Operation) (s : Store) : Reply × Store :=
  match op with
  | .listResources session tenantId q => (.resources (listResources host session tenantId q s), s)
  | .getResource session tenantId resourceId => (.resource (getResource session tenantId resourceId s), s)
  | .listSubscriptions tenantId => (.subscriptions (listSubscriptions host tenantId s), s)
  | .listResourceGroups tenantId => (.resourceGroups (listResourceGroups host tenantId s), s)
  | .createSyncJob id requestedAt r =>
    let (a, s) := Fallible.transaction (createSyncJob id requestedAt r s) s
    (.job a, s)
  | .upsertSubscription id tenantId azureSubscriptionId displayName state =>
    let (a, s) := Fallible.transaction (upsertSubscription id tenantId azureSubscriptionId displayName state s) s
    (.subscription a, s)
  | .upsertResource session draw subscription item =>
    let (a, s) := Fallible.transaction
      ((upsertResource host session draw subscription.tenantId subscription.id item s).map fun p =>
        ((p.1, p.2.1), p.2.2)) s
    (.stored a, s)

/-- The ids the call draws are in no other tenant's rows. -/
def Operation.Fresh : Operation → Store → Prop
  | .createSyncJob id _ r, s => NewTo SyncJob.tenantId SyncJob.id r.tenantId s.jobs id
  | .upsertSubscription id tenantId _ _ _, s =>
    NewTo Subscription.tenantId Subscription.id tenantId s.subscriptions id
  | .upsertResource _ draw subscription _, s =>
    NewTo Resource.tenantId Resource.id subscription.tenantId s.resources draw.id ∧
      NewTo ResourceGroup.tenantId ResourceGroup.id subscription.tenantId s.groups draw.groupId
  | _, _ => True

/-- A call needs no other rows than those of its tenant. -/
theorem runOperation_of {op : Operation} (hfresh : op.Fresh s) :
    runOperation host op (s.of op.tenantId) =
      ((runOperation host op s).1, (runOperation host op s).2.of op.tenantId) := by
  cases op with
  | listResources session tenantId q => exact congrArg (fun a => (Reply.resources a, _)) (listResources_of q)
  | getResource session tenantId resourceId =>
    exact congrArg (fun a => (Reply.resource a, _)) (getResource_of resourceId)
  | listSubscriptions tenantId => exact congrArg (fun a => (Reply.subscriptions a, _)) listSubscriptions_of
  | listResourceGroups tenantId => exact congrArg (fun a => (Reply.resourceGroups a, _)) listResourceGroups_of
  | createSyncJob id requestedAt r =>
    simp only [runOperation, Operation.tenantId]
    rw [createSyncJob_of hfresh]
    cases createSyncJob id requestedAt r s <;> rfl
  | upsertSubscription id tenantId azureSubscriptionId displayName state =>
    simp only [runOperation, Operation.tenantId]
    rw [upsertSubscription_of hfresh]
    cases upsertSubscription id tenantId azureSubscriptionId displayName state s <;> rfl
  | upsertResource session draw subscription item =>
    simp only [runOperation, Operation.tenantId]
    rw [upsertResource_of hfresh.1 hfresh.2]
    cases upsertResource host session draw subscription.tenantId subscription.id item s <;> rfl

/-- A call writes to the rows of its tenant only. -/
theorem runOperation_written (op : Operation) (s : Store) :
    Store.WrittenBy op.tenantId s (runOperation host op s).2 := by
  cases op with
  | listResources | getResource | listSubscriptions | listResourceGroups => exact .refl s
  | createSyncJob => exact Fallible.transaction_state (.refl s) fun _ _ h => createSyncJob_written h
  | upsertSubscription => exact Fallible.transaction_state (.refl s) fun _ _ h => upsertSubscription_written h
  | upsertResource =>
    refine Fallible.transaction_state (.refl s) fun _ _ h => ?_
    obtain ⟨p, hp, heq⟩ := Fallible.map_eq_ok.mp h
    cases heq
    exact upsertResource_written hp

theorem Operation.Fresh.before {op : Operation} (h : op.Fresh s') (hwritten : Store.WrittenBy tenantId s s') :
    op.Fresh s := by
  cases op with
  | listResources | getResource | listSubscriptions | listResourceGroups => exact trivial
  | createSyncJob => exact NewTo.before h hwritten.jobs
  | upsertSubscription => exact NewTo.before h hwritten.subscriptions
  | upsertResource => exact ⟨NewTo.before h.1 hwritten.resources, NewTo.before h.2 hwritten.groups⟩

theorem Operation.Fresh.after {op : Operation} (h : op.Fresh s) (hwritten : Store.WrittenBy op.tenantId s s') :
    op.Fresh s' := by
  cases op with
  | listResources | getResource | listSubscriptions | listResourceGroups => exact trivial
  | createSyncJob => exact NewTo.after h hwritten.jobs
  | upsertSubscription => exact NewTo.after h hwritten.subscriptions
  | upsertResource => exact ⟨NewTo.after h.1 hwritten.resources, NewTo.after h.2 hwritten.groups⟩

end Run
end Sentinel.Inventory
