import Sentinel.Inventory.Worker
import Sentinel.Library.Fallible

/-! What the transactions do to the rows.

Each function that writes is inverted once: what it did if it succeeded. That the tables it
is not about are as they were follows. -/
namespace Sentinel.Inventory
open Library Common

variable {host : Host} {session : Session} {draw : Draw} {tenantId subscriptionId : Uuid} {s s' : Store}

/-! ### Inserts -/

theorem insertSubscription_rows {r : Subscription} (h : s.insertSubscription r = .ok s') :
    s'.subscriptions = s.subscriptions ++ [r] ∧ s'.groups = s.groups ∧ s'.resources = s.resources ∧
      s'.jobs = s.jobs := by
  unfold Store.insertSubscription at h
  split_ifs at h
  cases h
  exact ⟨rfl, rfl, rfl, rfl⟩

theorem insertGroup_rows {g : ResourceGroup} (h : s.insertGroup g = .ok s') :
    s'.groups = s.groups ++ [g] ∧ s'.subscriptions = s.subscriptions ∧ s'.resources = s.resources ∧
      s'.jobs = s.jobs := by
  unfold Store.insertGroup at h
  split_ifs at h
  cases h
  exact ⟨rfl, rfl, rfl, rfl⟩

theorem insertResource_rows {r : Resource} (h : s.insertResource r = .ok s') :
    s'.resources = s.resources ++ [r] ∧ s'.subscriptions = s.subscriptions ∧ s'.groups = s.groups ∧
      s'.jobs = s.jobs := by
  unfold Store.insertResource at h
  split_ifs at h
  cases h
  exact ⟨rfl, rfl, rfl, rfl⟩

theorem insertJob_rows {j : SyncJob} (h : s.insertJob j = .ok s') :
    s'.jobs = s.jobs ++ [j] ∧ s'.subscriptions = s.subscriptions ∧ s'.groups = s.groups ∧
      s'.resources = s.resources := by
  unfold Store.insertJob at h
  split_ifs at h
  cases h
  exact ⟨rfl, rfl, rfl, rfl⟩

/-! ### Repository functions -/

theorem createSyncJob_cases {id : Uuid} {requestedAt : Instant} {r : JobRequest} {job : SyncJob}
    (h : createSyncJob id requestedAt r s = .ok (job, s')) :
    (findJob r.tenantId r.idempotencyKey s = some job ∧ s' = s) ∨
      (findJob r.tenantId r.idempotencyKey s = none ∧ r.taken ∧ job = newJob id requestedAt r ∧
        s.insertJob (newJob id requestedAt r) = .ok s') := by
  unfold createSyncJob at h
  split at h
  · cases h
    exact .inl ⟨‹_›, rfl⟩
  · obtain ⟨t, ht, heq⟩ := Fallible.map_eq_ok.mp h
    cases heq
    unfold insertNewJob at ht
    split_ifs at ht with htaken
    exact .inr ⟨‹_›, htaken, rfl, ht⟩

theorem upsertSubscription_cases {id azureSubscriptionId : Uuid} {displayName state : String} {r : Subscription}
    (h : upsertSubscription id tenantId azureSubscriptionId displayName state s = .ok (r, s')) :
    (findSubscription tenantId azureSubscriptionId s = none ∧
        r = newSubscription id tenantId azureSubscriptionId displayName state ∧
        s.insertSubscription r = .ok s') ∨
      ∃ old, findSubscription tenantId azureSubscriptionId s = some old ∧
        r = rediscovered old.id displayName state old ∧
        s' = s.updateSubscriptions (rediscovered old.id displayName state)
          (keeps_rediscovered old.id displayName state) := by
  unfold upsertSubscription at h
  split at h
  · cases h
  · split at h
    · obtain ⟨t, ht, heq⟩ := Fallible.map_eq_ok.mp h
      cases heq
      exact .inl ⟨‹_›, rfl, ht⟩
    · cases h
      exact .inr ⟨_, ‹_›, rfl, rfl⟩

theorem upsertSubscription_frame {id azureSubscriptionId : Uuid} {displayName state : String} {r : Subscription}
    (h : upsertSubscription id tenantId azureSubscriptionId displayName state s = .ok (r, s')) :
    s'.groups = s.groups ∧ s'.resources = s.resources ∧ s'.jobs = s.jobs := by
  rcases upsertSubscription_cases h with ⟨-, -, hinsert⟩ | ⟨old, -, -, rfl⟩
  · exact (insertSubscription_rows hinsert).2
  · exact ⟨rfl, rfl, rfl⟩

theorem storeResource_cases {v : ItemValues} {r : Resource} {changed : Bool}
    (h : storeResource host session draw tenantId subscriptionId v s = .ok (r, changed, s')) :
    v.taken host ∧
      ((s.resources.find? (fun r => session.sees r && isResource tenantId v.normalizedResourceId r) = none ∧
          r = newResource draw tenantId subscriptionId v ∧ session.sees r ∧ s.insertResource r.stored = .ok s') ∨
        ∃ old, s.resources.find? (fun r => session.sees r && isResource tenantId v.normalizedResourceId r) =
            some old ∧
          r = seenAgain v old ∧
          s' = s.updateResources (resourceUpdate tenantId v) (keeps_resourceUpdate tenantId v)) := by
  unfold storeResource at h
  split at h
  · dsimp only at h
    split_ifs at h with hsees htaken
    obtain ⟨t, ht, heq⟩ := Fallible.map_eq_ok.mp h
    cases heq
    refine ⟨by simpa using htaken, .inl ⟨‹_›, rfl, by simpa using hsees, ht⟩⟩
  · split_ifs at h with htaken
    cases h
    exact ⟨htaken, .inr ⟨_, ‹_›, rfl, rfl⟩⟩

theorem storeResource_frame {v : ItemValues} {r : Resource} {changed : Bool}
    (h : storeResource host session draw tenantId subscriptionId v s = .ok (r, changed, s')) :
    s'.subscriptions = s.subscriptions ∧ s'.groups = s.groups ∧ s'.jobs = s.jobs := by
  obtain ⟨-, ⟨-, -, -, hinsert⟩ | ⟨old, -, -, rfl⟩⟩ := storeResource_cases h
  · exact (insertResource_rows hinsert).2
  · exact ⟨rfl, rfl, rfl⟩

theorem storeGroup_cases {r : Resource} (h : storeGroup host draw tenantId subscriptionId r s = .ok s') :
    (r.resourceType ≠ resourceGroupType ∧ s' = s) ∨
      (r.resourceType = resourceGroupType ∧
        (s.groups.find? (fun g => g.key = (tenantId, subscriptionId, host.py.lower r.name)) = none ∧
            s.insertGroup (newGroup host draw tenantId subscriptionId r) = .ok s' ∨
          ∃ g, s.groups.find? (fun g => g.key = (tenantId, subscriptionId, host.py.lower r.name)) = some g ∧
            s' = s.updateGroups (groupSeen g.id draw.now) (keeps_groupSeen g.id draw.now))) := by
  unfold storeGroup at h
  by_cases htype : r.resourceType = resourceGroupType
  · rw [if_pos htype] at h
    split at h
    · split_ifs at h
      exact .inr ⟨htype, .inl ⟨‹_›, h⟩⟩
    · cases h
      exact .inr ⟨htype, .inr ⟨_, ‹_›, rfl⟩⟩
  · rw [if_neg htype] at h
    cases h
    exact .inl ⟨htype, rfl⟩

theorem storeGroup_frame {r : Resource} (h : storeGroup host draw tenantId subscriptionId r s = .ok s') :
    s'.subscriptions = s.subscriptions ∧ s'.resources = s.resources ∧ s'.jobs = s.jobs := by
  rcases storeGroup_cases h with ⟨-, rfl⟩ | ⟨-, ⟨-, hinsert⟩ | ⟨g, -, rfl⟩⟩
  · exact ⟨rfl, rfl, rfl⟩
  · exact (insertGroup_rows hinsert).2
  · exact ⟨rfl, rfl, rfl⟩

/-- What an upsert that succeeds consists of. -/
theorem upsertResource_eq_ok {item : Json.Object} {r : Resource} {changed : Bool} :
    upsertResource host session draw tenantId subscriptionId item s = .ok (r, changed, s') ↔
      ∃ (id : Json) (t : Store), item.get "id" = some id ∧
        storeResource host session draw tenantId subscriptionId (itemValues host draw (host.py.str id) item) s =
          .ok (r, changed, t) ∧
        storeGroup host draw tenantId subscriptionId r t = .ok s' := by
  unfold upsertResource
  cases hid : item.get "id" with
  | none => simp
  | some id =>
    simp only [Fallible.bind_eq_ok, Option.some.injEq]
    refine ⟨?_, ?_⟩
    · rintro ⟨⟨r', changed', t⟩, hstore, s'', hgroup, heq⟩
      cases heq
      exact ⟨id, t, rfl, hstore, hgroup⟩
    · rintro ⟨id', t, rfl, hstore, hgroup⟩
      exact ⟨(r, changed, t), hstore, s', hgroup, rfl⟩

/-! ### The transactions of a worker -/

theorem register_frame {job : SyncJob} {available : List AzureSubscription} {ids : Nat → Uuid}
    {wanted : List Uuid} {drawn : Nat} {found subscriptions : List (Uuid × Subscription)}
    (h : register host job available ids wanted drawn found s = .ok (subscriptions, s')) :
    s'.groups = s.groups ∧ s'.resources = s.resources ∧ s'.jobs = s.jobs := by
  induction wanted generalizing drawn found s with
  | nil =>
    cases h
    exact ⟨rfl, rfl, rfl⟩
  | cons id rest ih =>
    unfold register at h
    split at h
    · cases h
    · split at h
      · cases h
      · rename_i hupsert
        obtain ⟨hgroups, hresources, hjobs⟩ := ih h
        obtain ⟨hgroups', hresources', hjobs'⟩ := upsertSubscription_frame hupsert
        exact ⟨hgroups.trans hgroups', hresources.trans hresources', hjobs.trans hjobs'⟩

/-- One round of the storing loop. -/
theorem storeItems_cons {job : SyncJob} {subscriptions : List (Uuid × Subscription)} {draws : Nat → Draw}
    {item : Json.Object} {rest : List Json.Object} {n count : Nat} {projections : List Projection}
    (h : storeItems host session job subscriptions draws (item :: rest) n s = .ok (projections, count, s')) :
    ∃ subscription r changed t projections' count',
      upsertResource host session (draws n) job.tenantId subscription item s = .ok (r, changed, t) ∧
      storeItems host session job subscriptions draws rest (n + 1) t = .ok (projections', count', s') ∧
      projections = projectionOf job r :: projections' := by
  simp only [storeItems, Fallible.bind_eq_ok] at h
  obtain ⟨subscription, -, ⟨r, changed, t⟩, hupsert, ⟨projections', count', s''⟩, hrest, heq⟩ := h
  cases heq
  exact ⟨subscription.id, r, changed, t, projections', count', Fallible.mapError_eq_ok.mp hupsert, hrest, rfl⟩

theorem storeItems_jobs {job : SyncJob} {subscriptions : List (Uuid × Subscription)} {draws : Nat → Draw}
    {items : List Json.Object} {n count : Nat} {projections : List Projection}
    (h : storeItems host session job subscriptions draws items n s = .ok (projections, count, s')) :
    s'.jobs = s.jobs := by
  induction items generalizing n s projections count with
  | nil =>
    cases h
    rfl
  | cons item rest ih =>
    obtain ⟨subscription, r, changed, t, projections', count', hupsert, hrest, -⟩ := storeItems_cons h
    obtain ⟨id, u, -, hresource, hgroup⟩ := upsertResource_eq_ok.mp hupsert
    rw [ih hrest, (storeGroup_frame hgroup).2.2, (storeResource_frame hresource).2.2]

end Sentinel.Inventory
