import Sentinel.Inventory.Rows

/-! What the storing transaction leaves in the table.

Item after item, the row of the item's id is inserted or rewritten, and a later item with
the same id rewrites it again. A row keeps its id and its key from there on, so at the end
every item has a row, and the row shows the item or a later one with its id. -/
namespace Sentinel.Inventory
open Library Common

/-- The row shows the values; a JSON value Python finds equal to the one it loaded is not
written. -/
structure ItemValues.ShownBy (v : ItemValues) (r : Resource) : Prop where
  azureResourceId : r.azureResourceId = v.azureResourceId
  normalizedResourceId : r.normalizedResourceId = v.normalizedResourceId
  resourceType : r.resourceType = v.resourceType
  name : r.name = v.name
  resourceGroup : r.resourceGroup = v.resourceGroup
  location : nullableText v.location = some r.location
  kind : nullableText v.kind = some r.kind
  sku : r.sku = v.sku
  tags : ∃ loaded, (loaded = v.tags ∨ Python.eq loaded v.tags) ∧ r.tags = loaded.reload
  properties : ∃ loaded, (loaded = v.properties ∨ Python.eq loaded v.properties) ∧ r.properties = loaded.reload
  lastSeenAt : r.lastSeenAt = v.lastSeenAt
  state : r.state = .active
  missingSince : r.missingSince = none

/-- The row shows what some call of `upsert_resource` read from the item. -/
def Shows (host : Host) (item : Json.Object) (r : Resource) : Prop :=
  ∃ id draw, item.get "id" = some id ∧ (itemValues host draw (host.py.str id) item).ShownBy r

/-- The key of the resource an item is about. -/
def itemKey (host : Host) (tenantId : Uuid) (id : Json) : Uuid × String :=
  (tenantId, host.py.lower (host.py.str id))

variable {host : Host} {session : Session} {draw : Draw} {tenantId subscriptionId : Uuid} {s s' : Store}

theorem join_nullableText {v : Json} (h : (nullableText v).isSome) :
    nullableText v = some (nullableText v).join := by
  obtain ⟨text, ht⟩ := Option.isSome_iff_exists.mp h
  rw [ht]
  rfl

theorem ItemValues.taken_texts {v : ItemValues} (h : v.taken host) :
    nullableText v.location = some (nullableText v.location).join ∧
      nullableText v.kind = some (nullableText v.kind).join := by
  simp only [ItemValues.taken, Bool.and_eq_true] at h
  exact ⟨join_nullableText h.1.1.1.1.2, join_nullableText h.1.1.1.2⟩

theorem shownBy_newResource {v : ItemValues} (h : v.taken host) :
    v.ShownBy (newResource draw tenantId subscriptionId v).stored := by
  obtain ⟨hlocation, hkind⟩ := v.taken_texts h
  exact ⟨rfl, rfl, rfl, rfl, rfl, hlocation, hkind, rfl, ⟨_, .inl rfl, rfl⟩, ⟨_, .inl rfl, rfl⟩, rfl, rfl, rfl⟩

theorem shownBy_seenAgain {v : ItemValues} (h : v.taken host) (old : Resource) :
    v.ShownBy (seenAgain v old).stored := by
  obtain ⟨hlocation, hkind⟩ := v.taken_texts h
  have hloaded : ∀ loaded new : Json, (if Python.eq loaded new then loaded else new) = new ∨
      Python.eq (if Python.eq loaded new then loaded else new) new := by
    intro loaded new
    by_cases heq : Python.eq loaded new
    · rw [if_pos heq]
      exact .inr heq
    · rw [if_neg heq]
      exact .inl rfl
  exact ⟨rfl, rfl, rfl, rfl, rfl, hlocation, hkind, rfl, ⟨_, hloaded _ _, rfl⟩, ⟨_, hloaded _ _, rfl⟩, rfl, rfl,
    rfl⟩

/-- The row of an item after its upsert. -/
theorem storeResource_row {v : ItemValues} {r : Resource} {changed : Bool}
    (h : storeResource host session draw tenantId subscriptionId v s = .ok (r, changed, s')) :
    ∃ row ∈ s'.resources, row = r.stored ∧ row.key = (tenantId, v.normalizedResourceId) ∧ v.ShownBy row := by
  obtain ⟨htaken, ⟨-, rfl, -, hinsert⟩ | ⟨old, hfind, rfl, rfl⟩⟩ := storeResource_cases h
  · refine ⟨_, ?_, rfl, rfl, shownBy_newResource htaken⟩
    rw [(insertResource_rows hinsert).1]
    exact List.mem_append_right _ (List.mem_singleton_self _)
  · have hkey : old.key = (tenantId, v.normalizedResourceId) := by
      have hseen := List.find?_some hfind
      simp only [isResource, Bool.and_eq_true, decide_eq_true_eq] at hseen
      exact hseen.2
    refine ⟨_, ?_, rfl, ?_, shownBy_seenAgain htaken old⟩
    · refine List.mem_map.mpr ⟨old, List.mem_of_find?_eq_some hfind, ?_⟩
      exact if_pos hkey
    · have htenant : old.tenantId = tenantId := congrArg Prod.fst hkey
      exact Prod.ext htenant rfl

/-- What an upsert does to a row: nothing, or it is the item's. -/
theorem storeResource_kept {v : ItemValues} {r row : Resource} {changed : Bool}
    (h : storeResource host session draw tenantId subscriptionId v s = .ok (r, changed, s'))
    (hrow : row ∈ s.resources) : ∃ row' ∈ s'.resources, row'.id = row.id ∧ row'.key = row.key ∧
      (row' = row ∨ v.ShownBy row') := by
  obtain ⟨htaken, ⟨-, -, -, hinsert⟩ | ⟨old, -, -, rfl⟩⟩ := storeResource_cases h
  · rw [(insertResource_rows hinsert).1]
    exact ⟨row, List.mem_append_left _ hrow, rfl, rfl, .inl rfl⟩
  · have hkeeps := keeps_resourceUpdate tenantId v
    refine ⟨_, List.mem_map.mpr ⟨row, hrow, rfl⟩, hkeeps.id row, hkeeps.key row, ?_⟩
    unfold resourceUpdate
    split_ifs
    · exact .inr (shownBy_seenAgain htaken row)
    · exact .inl rfl

/-- A row after more items: the same row, and what it shows is what it showed or one of them. -/
theorem storeItems_kept {job : SyncJob} {subscriptions : List (Uuid × Subscription)} {draws : Nat → Draw}
    {items : List Json.Object} {n count : Nat} {projections : List Projection}
    (h : storeItems host session job subscriptions draws items n s = .ok (projections, count, s'))
    {row : Resource} (hrow : row ∈ s.resources) :
    ∃ row' ∈ s'.resources, row'.id = row.id ∧ row'.key = row.key ∧
      (row' = row ∨ ∃ item ∈ items, Shows host item row') := by
  induction items generalizing n s projections count row with
  | nil =>
    cases h
    exact ⟨row, hrow, rfl, rfl, .inl rfl⟩
  | cons item rest ih =>
    obtain ⟨subscription, r, changed, t, projections', count', hupsert, hrest, -⟩ := storeItems_cons h
    obtain ⟨id, u, hitem, hresource, hgroup⟩ := upsertResource_eq_ok.mp hupsert
    obtain ⟨row₁, hrow₁, hid₁, hkey₁, hshown₁⟩ := storeResource_kept hresource hrow
    rw [← (storeGroup_frame hgroup).2.1] at hrow₁
    obtain ⟨row₂, hrow₂, hid₂, hkey₂, hshown₂⟩ := ih hrest hrow₁
    refine ⟨row₂, hrow₂, hid₂.trans hid₁, hkey₂.trans hkey₁, ?_⟩
    rcases hshown₂ with rfl | ⟨later, hlater, hshows⟩
    · rcases hshown₁ with rfl | hvalues
      · exact .inl rfl
      · exact .inr ⟨item, List.mem_cons_self .., id, _, hitem, hvalues⟩
    · exact .inr ⟨later, List.mem_cons_of_mem _ hlater, hshows⟩

/-- The projection posted for an item: of the row the item was stored in, with the item's
values. -/
structure Projects (host : Host) (job : SyncJob) (item : Json.Object) (row : Resource) (p : Projection) : Prop where
  tenantId : p.tenantId = job.tenantId
  inventoryResourceId : p.inventoryResourceId = row.id
  azureResourceId : ∃ id, item.get "id" = some id ∧ p.azureResourceId = host.py.str id
  name : p.name = textOf host item "name"
  resourceType : p.resourceType = host.py.lower (textOf host item "type")
  resourceGroup : p.resourceGroup = textOf host item "resourceGroup"
  properties : ∃ given, given = orElse (item.get "properties") (.obj []) ∧
    (p.properties = given ∨ Python.eq p.properties given)

/-- An item is stored, in a row that shows it or another of the items with its id, and what
is posted for it projects the row. -/
def Delivered (host : Host) (job : SyncJob) (items : List Json.Object) (store : Store) (item : Json.Object)
    (p : Projection) : Prop :=
  ∃ id, item.get "id" = some id ∧ ∃ row ∈ store.resources, row.key = itemKey host job.tenantId id ∧
    (∃ item ∈ items, Shows host item row) ∧ Projects host job item row p

theorem projects_of_store {job : SyncJob} {item : Json.Object} {id : Json} (hitem : item.get "id" = some id)
    {r row : Resource} {changed : Bool}
    (h : storeResource host session draw job.tenantId subscriptionId (itemValues host draw (host.py.str id) item) s =
      .ok (r, changed, s')) (hid : row.id = r.id) : Projects host job item row (projectionOf job r) := by
  obtain ⟨-, ⟨-, rfl, -⟩ | ⟨old, -, rfl, -⟩⟩ := storeResource_cases h
  · exact ⟨rfl, hid.symm, ⟨id, hitem, rfl⟩, rfl, rfl, rfl, _, rfl, .inl rfl⟩
  · refine ⟨rfl, hid.symm, ⟨id, hitem, rfl⟩, rfl, rfl, rfl, _, rfl, ?_⟩
    show (if Python.eq old.properties _ then old.properties else _) = _ ∨
      Python.eq (if Python.eq old.properties _ then old.properties else _) _
    split_ifs with heq
    · exact .inr heq
    · exact .inl rfl

/-- Every item of a transaction that succeeds is stored and will be projected. -/
theorem storeItems_delivered {job : SyncJob} {subscriptions : List (Uuid × Subscription)} {draws : Nat → Draw}
    {items : List Json.Object} {n count : Nat} {projections : List Projection}
    (h : storeItems host session job subscriptions draws items n s = .ok (projections, count, s')) :
    List.Forall₂ (Delivered host job items s') items projections := by
  induction items generalizing n s projections count with
  | nil =>
    cases h
    exact .nil
  | cons item rest ih =>
    obtain ⟨subscription, r, changed, t, projections', count', hupsert, hrest, rfl⟩ := storeItems_cons h
    obtain ⟨id, u, hitem, hresource, hgroup⟩ := upsertResource_eq_ok.mp hupsert
    refine .cons ?_ ?_
    · obtain ⟨row, hrow, rfl, hkey, hvalues⟩ := storeResource_row hresource
      rw [← (storeGroup_frame hgroup).2.1] at hrow
      obtain ⟨row', hrow', hid', hkey', hshown⟩ := storeItems_kept hrest hrow
      refine ⟨id, hitem, row', hrow', hkey'.trans hkey, ?_, projects_of_store hitem hresource hid'⟩
      rcases hshown with rfl | ⟨later, hlater, hshows⟩
      · exact ⟨item, List.mem_cons_self .., id, _, hitem, hvalues⟩
      · exact ⟨later, List.mem_cons_of_mem _ hlater, hshows⟩
    · refine (ih hrest).imp fun later p ⟨id', hid', row, hrow, hkey, ⟨shown, hmem, hshows⟩, hp⟩ => ?_
      exact ⟨id', hid', row, hrow, hkey, ⟨shown, List.mem_cons_of_mem _ hmem, hshows⟩, hp⟩

end Sentinel.Inventory
