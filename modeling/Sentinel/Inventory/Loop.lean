import Sentinel.Inventory.Batch

/-! The worker's loop as a session that keeps nothing in memory.

`Worker` takes each upsert of the storing transaction as done at once. A session whose
objects nobody keeps comes to the same: one call and its commit are the upsert
(`upsert_commit`), and a call that finds nothing in memory flushes first, so the loop is a
run of calls (`upsertAll_of_storeItems`). -/
namespace Sentinel.Inventory
open Library Common

variable {host : Host} {session : Session} {tenantId : Uuid} {call : Call} {b b' : Batch} {r : Resource} {changed : Bool}

/-! ### One call -/

theorem updateResources_congr {s : Store} {f g : Resource → Resource} (hf : Store.Keeps Resource.id Resource.key f)
    (hg : Store.Keeps Resource.id Resource.key g) (h : ∀ r ∈ s.resources, f r = g r) :
    s.updateResources f hf = s.updateResources g hg := by
  unfold Store.updateResources
  simp only [List.map_congr_left h]

/-- Without objects in memory, the `UPDATE` of a row as a column gives it back. -/
theorem rewritten_loaded {v : ItemValues} {s : Store} {row : Resource} (hrow : row ∈ s.resources)
    (hkey : row.key = (tenantId, v.normalizedResourceId)) (hstored : row.stored = row) :
    ∀ q ∈ s.resources, rewritten v row q = resourceUpdate tenantId v q := by
  have htags : row.tags.reload = row.tags := congrArg Resource.tags hstored
  have hproperties : row.properties.reload = row.properties := congrArg Resource.properties hstored
  intro q hq
  by_cases hsame : q = row
  · subst hsame
    rw [rewritten_eq (Mirrors.refl q) (congrArg Prod.snd hkey), resourceUpdate, if_pos hkey]
    unfold Resource.stored seenAgain
    simp only [apply_ite Json.reload, htags, hproperties]
  · have hid : q.id ≠ row.id := fun heq => hsame (s.resourceIds.eq hq hrow heq)
    have hother : q.key ≠ (tenantId, v.normalizedResourceId) := by
      intro heq
      exact hsame (s.resourceKeys.eq hq hrow (heq.trans hkey.symm))
    rw [rewritten, resourceUpdate, if_neg hid, if_neg hother]

/-- A session of one call does what the call does in a transaction of its own. -/
theorem upsert_commit {s : Store} (hstored : ∀ row ∈ s.resources, row.stored = row) :
    (((Batch.start s).upsert host session tenantId call).bind fun p =>
      (flush p.2.2.store p.2.2.pending).map fun t => (p.1, p.2.1, t)) =
    upsertResource host session call.draw tenantId call.subscriptionId call.item s := by
  unfold Batch.upsert upsertResource
  cases call.item.get "id" with
  | none => rfl
  | some id =>
    generalize hv : itemValues host call.draw (host.py.str id) call.item = v
    have hwrite : (Batch.start s).writeResource host session tenantId call.subscriptionId call.draw v =
        storeResource host session call.draw tenantId call.subscriptionId v s := by
      unfold Batch.writeResource storeResource
      have hquery : (s.resources.find? fun r => session.sees r && isResource tenantId v.normalizedResourceId r) =
          findResource session tenantId v.normalizedResourceId s := rfl
      rw [hquery, show (Batch.start s).store = s from rfl]
      cases hfind : findResource session tenantId v.normalizedResourceId s with
      | none => rfl
      | some row =>
        obtain ⟨hrow, hkey⟩ := findResource_some hfind
        have hupdate : s.updateResources (rewritten v row) (keeps_rewritten v row) =
            s.updateResources (resourceUpdate tenantId v) (keeps_resourceUpdate tenantId v) :=
          updateResources_congr _ _ (rewritten_loaded hrow hkey (hstored row hrow))
        show (if _ then Except.ok (seenAgain v row, differs v row,
          s.updateResources (rewritten v row) (keeps_rewritten v row)) else _) = _
        rw [hupdate]
    dsimp only
    rw [hv, hwrite]
    cases hstore : storeResource host session call.draw tenantId call.subscriptionId v s with
    | error f => rfl
    | ok p =>
      obtain ⟨r, changed, t⟩ := p
      have hgroup : flush t (groupWrite host tenantId call.subscriptionId call.draw r t) =
          storeGroup host call.draw tenantId call.subscriptionId r t := by
        unfold groupWrite storeGroup
        by_cases htype : r.resourceType = resourceGroupType
        · rw [if_pos htype, if_pos htype]
          cases t.groups.find? fun g => g.key = (tenantId, call.subscriptionId, host.py.lower r.name) with
          | none => rfl
          | some g => rfl
        · rw [if_neg htype, if_neg htype]
          rfl
      show (flush t (groupWrite host tenantId call.subscriptionId call.draw r t)).map _ =
        (storeGroup host call.draw tenantId call.subscriptionId r t).bind _
      rw [hgroup]
      cases storeGroup host call.draw tenantId call.subscriptionId r t with
      | error f => rfl
      | ok u => rfl

/-- The JSON columns are as `jsonb` gives them back. -/
def StoredRows (s : Store) : Prop := ∀ row ∈ s.resources, row.stored = row

theorem stored_stored (r : Resource) : r.stored.stored = r.stored := by
  unfold Resource.stored
  simp only [Json.reload_reload]

theorem storedRows_upsertResource {draw : Draw} {subscriptionId : Uuid} {item : Json.Object} {s s' : Store}
    (hs : StoredRows s) (h : upsertResource host session draw tenantId subscriptionId item s = .ok (r, changed, s')) :
    StoredRows s' := by
  obtain ⟨id, t, -, hresource, hgroup⟩ := upsertResource_eq_ok.mp h
  unfold StoredRows
  rw [(storeGroup_frame hgroup).2.1]
  intro row hrow
  obtain ⟨-, ⟨-, rfl, -, hinsert⟩ | ⟨old, -, -, rfl⟩⟩ := storeResource_cases hresource
  · rw [(insertResource_rows hinsert).1] at hrow
    cases List.mem_append.mp hrow with
    | inl hrow => exact hs row hrow
    | inr hrow =>
      rw [List.mem_singleton.mp hrow]
      exact stored_stored _
  · obtain ⟨q, hq, rfl⟩ := List.mem_map.mp hrow
    unfold resourceUpdate
    split_ifs
    · exact stored_stored _
    · exact hs q hq

/-- A call flushes first. -/
theorem upsert_flushed {s : Store} (hheld : b.held = []) (hflush : flush b.store b.pending = .ok s) :
    b.upsert host session tenantId call = (Batch.start s).upsert host session tenantId call := by
  have hresources := (flush_rows hflush).2
  have hfind : ∀ normalized, findResource session tenantId normalized b.store =
      findResource session tenantId normalized s := by
    intro normalized
    unfold findResource
    rw [hresources]
  obtain ⟨store, held, pending⟩ := b
  obtain rfl : held = [] := hheld
  unfold Batch.upsert Batch.writeResource
  replace hflush : flush store pending = .ok s := hflush
  simp only [hfind, hflush]
  rfl

/-! ### The loop -/

theorem Upserts.held_nil (h : Upserts host session tenantId call b r changed b') (hkeep : ∀ q, call.keep q = false) :
    b'.held = [] := by
  cases h with
  | inserted => exact List.filter_eq_nil_iff.mpr fun q _ => by simp [hkeep q]
  | updated => exact List.filter_eq_nil_iff.mpr fun q _ => by simp [hkeep q]

theorem run_of_storeItems {job : SyncJob} {subscriptions : List (Uuid × Subscription)} {draws : Nat → Draw}
    {items : List Json.Object} {n count : Nat} {projections : List Projection} {s s' : Store} (hs : StoredRows s)
    (hheld : b.held = []) (hflush : flush b.store b.pending = .ok s)
    (h : storeItems host session job subscriptions draws items n s = .ok (projections, count, s')) :
    ∃ calls b', calls.map Call.item = items ∧ b.run host session job.tenantId calls = .ok (count, b') ∧
      flush b'.store b'.pending = .ok s' := by
  induction items generalizing b n s projections count with
  | nil =>
    cases h
    exact ⟨[], b, rfl, rfl, hflush⟩
  | cons item rest ih =>
    simp only [storeItems, Fallible.bind_eq_ok] at h
    obtain ⟨subscription, -, ⟨r, changed, t⟩, hupsert, ⟨projections', count', s''⟩, hrest, heq⟩ := h
    cases heq
    have hresource : upsertResource host session (draws n) job.tenantId subscription.id item s = .ok (r, changed, t) :=
      Fallible.mapError_eq_ok.mp hupsert
    let call : Call := ⟨subscription.id, draws n, fun _ => false, item⟩
    have hcommit : ((Batch.start s).upsert host session job.tenantId call >>= fun p =>
        (flush p.2.2.store p.2.2.pending).map fun t => (p.1, p.2.1, t)) = .ok (r, changed, t) :=
      (upsert_commit hs).trans hresource
    obtain ⟨⟨r', changed', b₁⟩, hcall, hmap⟩ := Fallible.bind_eq_ok.mp hcommit
    obtain ⟨t', hflushed, heq⟩ := Fallible.map_eq_ok.mp hmap
    cases heq
    have hempty : b₁.held = [] := (upserts_of_upsert hcall).held_nil fun _ => rfl
    obtain ⟨calls, b', hitems, hrun, hlast⟩ := ih (storedRows_upsertResource hs hresource) hempty hflushed hrest
    refine ⟨call :: calls, b', congrArg (item :: ·) hitems, ?_, hlast⟩
    rw [run_cons_eq_ok]
    exact ⟨_, _, b₁, count', (upsert_flushed hheld hflush).trans hcall, hrun, rfl⟩

/-- **The worker's loop is a session**: what it leaves and counts if nothing stays in memory. -/
theorem upsertAll_of_storeItems {job : SyncJob} {subscriptions : List (Uuid × Subscription)} {draws : Nat → Draw}
    {items : List Json.Object} {n count : Nat} {projections : List Projection} {s s' : Store} (hs : StoredRows s)
    (h : storeItems host session job subscriptions draws items n s = .ok (projections, count, s')) :
    ∃ calls, calls.map Call.item = items ∧ upsertAll host session job.tenantId calls s = .ok (count, s') := by
  obtain ⟨calls, b, hitems, hrun, hflush⟩ := run_of_storeItems (b := .start s) hs rfl rfl h
  exact ⟨calls, hitems, upsertAll_eq_ok.mpr ⟨b, hrun, hflush⟩⟩

end Sentinel.Inventory
