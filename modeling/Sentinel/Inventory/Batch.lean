import Sentinel.Inventory.Rows

/-! `upsert_resource` again and again in one session.

A call of `Repository` reads rows and writes them at once. In a session that does not flush
by itself there is more between a call and the tables: the session gives a resource it still
has in memory as it is there, not as the table keeps it, and a resource group is written
with the flush of the next call or with the commit. What is in memory mirrors its row up to
what `jsonb` changes (`Sound`), so a call sees what the calls before it did. -/
namespace Sentinel.Inventory
open Library Common

/-- A write of a resource group that is not flushed yet. -/
inductive GroupWrite where
  | add (g : ResourceGroup)
  | touch (id : Uuid) (now : Instant)

/-- A session in its transaction: the tables as it sees them, the resources it has in memory,
and what it is still to flush. -/
structure Batch where
  store : Store
  held : List Resource
  pending : Option GroupWrite

/-- A call of `upsert_resource`. Which objects stay in memory after it is up to who still
refers to them. -/
structure Call where
  subscriptionId : Uuid
  draw : Draw
  keep : Resource → Bool
  item : Json.Object

/-- The session begins. -/
def Batch.start (s : Store) : Batch := ⟨s, [], none⟩

/-- The object the session gives for a row. -/
def Batch.object (b : Batch) (row : Resource) : Resource := (b.held.find? fun h => h.id = row.id).getD row

/-- The groups, with the one that is not flushed. -/
def GroupWrite.apply (groups : List ResourceGroup) : Option GroupWrite → List ResourceGroup
  | none => groups
  | some (.add g) => groups ++ [g]
  | some (.touch id now) => groups.map (groupSeen id now)

def Batch.groups (b : Batch) : List ResourceGroup := GroupWrite.apply b.store.groups b.pending

/-- The flush of a group. -/
def flush (s : Store) : Option GroupWrite → Except Failure Store
  | none => .ok s
  | some (.add g) => if Json.storableText g.normalizedName then s.insertGroup g else .error .refused
  | some (.touch id now) => .ok (s.updateGroups (groupSeen id now) (keeps_groupSeen id now))

section Upsert
variable (host : Host) (session : Session) (tenantId : Uuid)

/-- The row the query of a call finds. -/
def findResource (normalized : String) (s : Store) : Option Resource :=
  s.resources.find? fun r => session.sees r && isResource tenantId normalized r

/-- The `UPDATE` of a row whose object had these values; the id it was looked up by is not
among what changed. -/
def rewritten (v : ItemValues) (loaded : Resource) (r : Resource) : Resource :=
  if r.id = loaded.id then {r with
    azureResourceId := Table.assign loaded.azureResourceId v.azureResourceId r.azureResourceId
    resourceType := Table.assign loaded.resourceType v.resourceType r.resourceType
    name := Table.assign loaded.name v.name r.name
    resourceGroup := Table.assign loaded.resourceGroup v.resourceGroup r.resourceGroup
    location := Table.assign loaded.location (nullableText v.location).join r.location
    kind := Table.assign loaded.kind (nullableText v.kind).join r.kind
    sku := Table.assign loaded.sku v.sku r.sku
    tags := if Python.eq loaded.tags v.tags then r.tags else v.tags.reload
    properties := if Python.eq loaded.properties v.properties then r.properties else v.properties.reload
    lastSeenAt := Table.assign loaded.lastSeenAt v.lastSeenAt r.lastSeenAt
    state := Table.assign loaded.state .active r.state
    missingSince := Table.assign loaded.missingSince none r.missingSince
    version := loaded.version + 1}
  else r

theorem keeps_rewritten (v : ItemValues) (loaded : Resource) :
    Store.Keeps Resource.id Resource.key (rewritten v loaded) := by
  constructor <;> intro r <;> unfold rewritten <;> split_ifs <;> rfl

/-- The query of a call and its flush: the resource, whether it changed, and the store. -/
def Batch.writeResource (subscriptionId : Uuid) (draw : Draw) (v : ItemValues) (b : Batch) :
    Except Failure (Resource × Bool × Store) :=
  match findResource session tenantId v.normalizedResourceId b.store with
  | none => do
    let s ← flush b.store b.pending
    let r := newResource draw tenantId subscriptionId v
    if !session.sees r then .error .rowSecurity
    else if !v.taken host then .error .refused
    else (s.insertResource r.stored).map fun s => (r, true, s)
  | some row => do
    let s ← flush b.store b.pending
    if v.taken host then
      .ok (seenAgain v (b.object row), differs v (b.object row),
        s.updateResources (rewritten v (b.object row)) (keeps_rewritten v (b.object row)))
    else .error .refused

/-- What a call adds to the session or assigns after its flush. -/
def groupWrite (subscriptionId : Uuid) (draw : Draw) (r : Resource) (s : Store) : Option GroupWrite :=
  if r.resourceType = resourceGroupType then
    match s.groups.find? fun g => g.key = (tenantId, subscriptionId, host.py.lower r.name) with
    | none => some (.add (newGroup host draw tenantId subscriptionId r))
    | some g => some (.touch g.id draw.now)
  else none

/-- The objects in memory after a call that gave this one. -/
def Batch.remember (call : Call) (r : Resource) (b : Batch) : List Resource :=
  (r :: b.held.filter fun h => h.id ≠ r.id).filter call.keep

def Batch.upsert (call : Call) (b : Batch) : Except Failure (Resource × Bool × Batch) :=
  match call.item.get "id" with
  | none => .error (.missingKey "id")
  | some id => do
    let v := itemValues host call.draw (host.py.str id) call.item
    let (r, changed, s) ← b.writeResource host session tenantId call.subscriptionId call.draw v
    return (r, changed, ⟨s, b.remember call r, groupWrite host tenantId call.subscriptionId call.draw r s⟩)

/-- The calls of a session: how many changed something, and the session after them. -/
def Batch.run : List Call → Batch → Except Failure (Nat × Batch)
  | [], b => .ok (0, b)
  | call :: rest, b => do
    let (_, changed, b) ← b.upsert host session tenantId call
    let (count, b) ← Batch.run rest b
    return ((if changed then 1 else 0) + count, b)

/-- The calls of a transaction and its commit. -/
def upsertAll (calls : List Call) (s : Store) : Except Failure (Nat × Store) := do
  let (count, b) ← (Batch.start s).run host session tenantId calls
  let s ← flush b.store b.pending
  return (count, s)

/-- What a call says of its resource; without an id it says nothing. -/
def Call.values (call : Call) : ItemValues :=
  itemValues host call.draw (host.py.str ((call.item.get "id").getD .null)) call.item

/-- The key of the resource a call is about. -/
def Call.key (call : Call) : Uuid × String := (tenantId, (call.values host).normalizedResourceId)

/-- What a call that succeeds does. -/
inductive Upserts (call : Call) (b : Batch) : Resource → Bool → Batch → Prop
  | inserted {s t : Store} {r : Resource} (hid : (call.item.get "id").isSome) (htaken : (call.values host).taken host)
      (hfind : findResource session tenantId (call.values host).normalizedResourceId b.store = none)
      (hflush : flush b.store b.pending = .ok s)
      (hr : r = newResource call.draw tenantId call.subscriptionId (call.values host)) (hsees : session.sees r)
      (hinsert : s.insertResource r.stored = .ok t) :
      Upserts call b r true ⟨t, b.remember call r, groupWrite host tenantId call.subscriptionId call.draw r t⟩
  | updated {s t : Store} {r row : Resource} (hid : (call.item.get "id").isSome)
      (htaken : (call.values host).taken host)
      (hfind : findResource session tenantId (call.values host).normalizedResourceId b.store = some row)
      (hflush : flush b.store b.pending = .ok s) (hr : r = seenAgain (call.values host) (b.object row))
      (ht : t = s.updateResources (rewritten (call.values host) (b.object row))
        (keeps_rewritten (call.values host) (b.object row))) :
      Upserts call b r (differs (call.values host) (b.object row))
        ⟨t, b.remember call r, groupWrite host tenantId call.subscriptionId call.draw r t⟩

end Upsert

variable {host : Host} {session : Session} {tenantId : Uuid} {call : Call} {b b' : Batch} {r : Resource} {changed : Bool}

theorem upserts_of_upsert (h : b.upsert host session tenantId call = .ok (r, changed, b')) :
    Upserts host session tenantId call b r changed b' := by
  unfold Batch.upsert at h
  cases hget : call.item.get "id" with
  | none =>
    rw [hget] at h
    cases h
  | some id =>
    have hid : (call.item.get "id").isSome := by rw [hget]; rfl
    have hvalues : itemValues host call.draw (host.py.str id) call.item = call.values host := by
      rw [Call.values, hget]
      rfl
    rw [hget] at h
    simp only [hvalues, Fallible.bind_eq_ok] at h
    obtain ⟨⟨r', changed', t⟩, hwrite, heq⟩ := h
    cases heq
    unfold Batch.writeResource at hwrite
    split at hwrite
    · obtain ⟨s, hflush, hwrite⟩ := Fallible.bind_eq_ok.mp hwrite
      dsimp only at hwrite
      split_ifs at hwrite with hsees htaken
      obtain ⟨t', hinsert, heq⟩ := Fallible.map_eq_ok.mp hwrite
      cases heq
      exact .inserted hid (by simpa using htaken) ‹_› hflush rfl (by simpa using hsees) hinsert
    · obtain ⟨s, hflush, hwrite⟩ := Fallible.bind_eq_ok.mp hwrite
      split_ifs at hwrite with htaken
      cases hwrite
      exact .updated hid htaken ‹_› hflush rfl rfl

/-- One call of a session, and the rest. -/
theorem run_cons_eq_ok {rest : List Call} {n : Nat} :
    b.run host session tenantId (call :: rest) = .ok (n, b') ↔ ∃ r changed t count,
      b.upsert host session tenantId call = .ok (r, changed, t) ∧
      t.run host session tenantId rest = .ok (count, b') ∧ n = (if changed then 1 else 0) + count := by
  simp only [Batch.run, Fallible.bind_eq_ok]
  refine ⟨?_, ?_⟩
  · rintro ⟨⟨r, changed, t⟩, hupsert, ⟨count, b''⟩, hrun, heq⟩
    cases heq
    exact ⟨r, changed, t, count, hupsert, hrun, rfl⟩
  · rintro ⟨r, changed, t, count, hupsert, hrun, rfl⟩
    exact ⟨(r, changed, t), hupsert, (count, b'), hrun, rfl⟩

theorem upsertAll_eq_ok {calls : List Call} {s s' : Store} {n : Nat} :
    upsertAll host session tenantId calls s = .ok (n, s') ↔ ∃ b,
      (Batch.start s).run host session tenantId calls = .ok (n, b) ∧ flush b.store b.pending = .ok s' := by
  simp only [upsertAll, Fallible.bind_eq_ok]
  refine ⟨?_, ?_⟩
  · rintro ⟨⟨count, b⟩, hrun, t, hflush, heq⟩
    cases heq
    exact ⟨b, hrun, hflush⟩
  · rintro ⟨b, hrun, hflush⟩
    exact ⟨(n, b), hrun, s', hflush, rfl⟩

/-! ### Groups -/

theorem flush_rows {s s' : Store} {w : Option GroupWrite} (h : flush s w = .ok s') :
    s'.groups = GroupWrite.apply s.groups w ∧ s'.resources = s.resources := by
  unfold flush at h
  split at h
  · cases h
    exact ⟨rfl, rfl⟩
  · split_ifs at h
    exact ⟨(insertGroup_rows h).1, (insertGroup_rows h).2.2.1⟩
  · cases h
    exact ⟨rfl, rfl⟩

/-- After a call, the groups are those before it, flushed, and what it is to flush. -/
theorem Upserts.groups (h : Upserts host session tenantId call b r changed b') :
    b'.store.groups = b.groups ∧ b'.pending = groupWrite host tenantId call.subscriptionId call.draw r b'.store := by
  cases h with
  | inserted _ _ _ hflush _ _ hinsert =>
    exact ⟨(insertResource_rows hinsert).2.2.1.trans (flush_rows hflush).1, rfl⟩
  | updated _ _ _ hflush _ ht =>
    subst ht
    exact ⟨(flush_rows hflush).1, rfl⟩

variable (host tenantId) in
/-- What a call does to the groups. -/
theorem apply_groupWrite (subscriptionId : Uuid) (draw : Draw) (r : Resource) (s : Store) :
    (r.resourceType ≠ resourceGroupType ∧
        GroupWrite.apply s.groups (groupWrite host tenantId subscriptionId draw r s) = s.groups) ∨
      (r.resourceType = resourceGroupType ∧
        ((tenantId, subscriptionId, host.py.lower r.name) ∉ s.groups.map ResourceGroup.key ∧
            GroupWrite.apply s.groups (groupWrite host tenantId subscriptionId draw r s) =
              s.groups ++ [newGroup host draw tenantId subscriptionId r] ∨
          ∃ g ∈ s.groups, g.key = (tenantId, subscriptionId, host.py.lower r.name) ∧
            GroupWrite.apply s.groups (groupWrite host tenantId subscriptionId draw r s) =
              s.groups.map (groupSeen g.id draw.now))) := by
  unfold groupWrite
  by_cases htype : r.resourceType = resourceGroupType
  · rw [if_pos htype]
    refine .inr ⟨htype, ?_⟩
    cases hfind : s.groups.find? fun g => g.key = (tenantId, subscriptionId, host.py.lower r.name) with
    | none =>
      refine .inl ⟨?_, rfl⟩
      intro hmem
      obtain ⟨g, hg, hkey⟩ := List.mem_map.mp hmem
      exact List.find?_eq_none.mp hfind g hg (decide_eq_true hkey)
    | some g =>
      have hkey : g.key = (tenantId, subscriptionId, host.py.lower r.name) := by simpa using List.find?_some hfind
      exact .inr ⟨g, List.mem_of_find?_eq_some hfind, hkey, rfl⟩
  · rw [if_neg htype]
    exact .inl ⟨htype, rfl⟩

/-! ### What is in memory -/

/-- The object is what the row holds, up to what the column changes. -/
structure Mirrors (h row : Resource) : Prop where
  same : {h with tags := row.tags, properties := row.properties} = row
  tags : row.tags = h.tags ∨ row.tags = h.tags.reload
  properties : row.properties = h.properties ∨ row.properties = h.properties.reload

theorem Mirrors.refl (r : Resource) : Mirrors r r := ⟨rfl, .inl rfl, .inl rfl⟩

theorem Mirrors.id {h row : Resource} (hm : Mirrors h row) : h.id = row.id := by
  rw [← hm.same]

theorem Mirrors.key {h row : Resource} (hm : Mirrors h row) : h.key = row.key := by
  rw [← hm.same]
  rfl

theorem Mirrors.subscriptionId {h row : Resource} (hm : Mirrors h row) : h.subscriptionId = row.subscriptionId := by
  rw [← hm.same]

theorem mirrors_stored (r : Resource) : Mirrors r r.stored := ⟨rfl, .inr rfl, .inr rfl⟩

/-- An `UPDATE` from an object that mirrors its row. -/
theorem rewritten_eq {v : ItemValues} {loaded row : Resource} (hm : Mirrors loaded row)
    (hkey : row.normalizedResourceId = v.normalizedResourceId) :
    rewritten v loaded row = {seenAgain v loaded with
      tags := if Python.eq loaded.tags v.tags then row.tags else v.tags.reload
      properties := if Python.eq loaded.properties v.properties then row.properties else v.properties.reload} := by
  have hassign : ∀ {α : Type} [DecidableEq α] (old new : α), Table.assign old new old = new := by
    intro α _ old new
    unfold Table.assign
    by_cases h : new = old
    · rw [if_pos h, h]
    · rw [if_neg h]
  unfold rewritten
  rw [if_pos hm.id.symm]
  rw [← hm.same] at hkey ⊢
  simp only [hassign, seenAgain, Resource.mk.injEq, true_and, and_true]
  exact hkey

theorem mirrors_rewritten {v : ItemValues} {loaded row : Resource} (hm : Mirrors loaded row)
    (hkey : row.normalizedResourceId = v.normalizedResourceId) :
    Mirrors (seenAgain v loaded) (rewritten v loaded row) := by
  rw [rewritten_eq hm hkey]
  refine ⟨rfl, ?_, ?_⟩
  · by_cases heq : Python.eq loaded.tags v.tags
    · simpa only [seenAgain, heq, if_true] using hm.tags
    · simp only [seenAgain, heq]
      exact .inr rfl
  · by_cases heq : Python.eq loaded.properties v.properties
    · simpa only [seenAgain, heq, if_true] using hm.properties
    · simp only [seenAgain, heq]
      exact .inr rfl

/-- What is in memory mirrors the tables, and the group to be flushed is new to them. -/
structure Batch.Sound (b : Batch) : Prop where
  held : ∀ h ∈ b.held, ∃ row ∈ b.store.resources, Mirrors h row
  keys : Table.Unique ResourceGroup.key b.groups

theorem sound_start (s : Store) : (Batch.start s).Sound := ⟨(fun _ hh => nomatch hh), s.groupKeys⟩

theorem Batch.Sound.object (hb : b.Sound) {row : Resource} (hrow : row ∈ b.store.resources) :
    Mirrors (b.object row) row := by
  unfold Batch.object
  cases hfind : b.held.find? fun h => h.id = row.id with
  | none => exact .refl row
  | some h =>
    have hid : h.id = row.id := by simpa using List.find?_some hfind
    obtain ⟨row', hrow', hm⟩ := hb.held h (List.mem_of_find?_eq_some hfind)
    obtain rfl : row' = row := b.store.resourceIds.eq hrow' hrow (hm.id.symm.trans hid)
    exact hm

/-! ### What a call makes of its row -/

/-- The row of a call's key, by what was there: inserted, or written from an object that
mirrors it. -/
inductive Writes (host : Host) (tenantId : Uuid) (call : Call) : Option Resource → Resource → Prop
  | inserted (htaken : (call.values host).taken host) :
      Writes host tenantId call none (newResource call.draw tenantId call.subscriptionId (call.values host)).stored
  | updated {row loaded : Resource} (htaken : (call.values host).taken host) (hkey : row.key = call.key host tenantId)
      (hm : Mirrors loaded row) : Writes host tenantId call (some row) (rewritten (call.values host) loaded row)

theorem findResource_some {normalized : String} {s : Store} {row : Resource}
    (h : findResource session tenantId normalized s = some row) :
    row ∈ s.resources ∧ row.key = (tenantId, normalized) := by
  have hseen := List.find?_some h
  simp only [isResource, Bool.and_eq_true, decide_eq_true_eq] at hseen
  exact ⟨List.mem_of_find?_eq_some h, hseen.2⟩

/-- A session that may write the tenant's rows sees them. -/
theorem findResource_none {normalized : String} {s : Store} (hsees : ∀ q : Resource, q.tenantId = tenantId → session.sees q)
    (h : findResource session tenantId normalized s = none) : (tenantId, normalized) ∉ s.resources.map Resource.key := by
  intro hmem
  obtain ⟨q, hq, hkey⟩ := List.mem_map.mp hmem
  have htenant : q.tenantId = tenantId := congrArg Prod.fst hkey
  apply List.find?_eq_none.mp h q hq
  rw [hsees q htenant]
  exact decide_eq_true hkey

/-- Whether a session sees a row depends on its tenant. -/
theorem sees_of_sees {q : Resource} (h : session.sees r) (htenant : q.tenantId = r.tenantId) : session.sees q := by
  unfold Session.sees at h ⊢
  rw [htenant]
  exact h

variable (host session tenantId) in
/-- The row a call writes. -/
def Batch.rowAfter (call : Call) (b : Batch) : Resource :=
  match findResource session tenantId (call.values host).normalizedResourceId b.store with
  | none => (newResource call.draw tenantId call.subscriptionId (call.values host)).stored
  | some row => rewritten (call.values host) (b.object row) row

/-- A call writes the row of its key, and no other. -/
theorem Upserts.row (h : Upserts host session tenantId call b r changed b') (hb : b.Sound) :
    Writes host tenantId call (Table.entries Resource.key b.store.resources (call.key host tenantId))
        (b.rowAfter host session tenantId call) ∧
      Mirrors r (b.rowAfter host session tenantId call) ∧ Table.entries Resource.key b'.store.resources =
        Function.update (Table.entries Resource.key b.store.resources) (call.key host tenantId)
          (some (b.rowAfter host session tenantId call)) := by
  unfold Batch.rowAfter
  cases h with
  | @inserted s t _ hid htaken hfind hflush hr hsees hinsert =>
    subst hr
    have htenant : ∀ q : Resource, q.tenantId = tenantId → session.sees q := fun q hq => sees_of_sees hsees hq
    have hnew : call.key host tenantId ∉ b.store.resources.map Resource.key := findResource_none htenant hfind
    have hnone : Table.entries Resource.key b.store.resources (call.key host tenantId) = none := by
      rw [Option.eq_none_iff_forall_not_mem]
      intro q hq
      obtain ⟨hq, hkey⟩ := (Table.entries_eq_some b.store.resourceKeys).mp hq
      exact hnew (hkey ▸ List.mem_map_of_mem hq)
    rw [hfind]
    refine ⟨?_, mirrors_stored _, ?_⟩
    · rw [hnone]
      exact .inserted htaken
    · show Table.entries Resource.key t.resources = _
      rw [(insertResource_rows hinsert).1, (flush_rows hflush).2]
      exact Table.entries_snoc hnew
  | @updated s t _ row hid htaken hfind hflush hr ht =>
    subst hr ht
    obtain ⟨hrow, hkey⟩ := findResource_some hfind
    have hm := hb.object hrow
    have hentry : Table.entries Resource.key b.store.resources (call.key host tenantId) = some row :=
      (Table.entries_eq_some b.store.resourceKeys).mpr ⟨hrow, hkey⟩
    rw [hfind]
    refine ⟨?_, mirrors_rewritten hm (congrArg Prod.snd hkey), ?_⟩
    · rw [hentry]
      exact .updated htaken hkey hm
    · have hkeeps := keeps_rewritten (call.values host) (b.object row)
      show Table.entries Resource.key (s.resources.map _) = Function.update _ (tenantId, _) _
      rw [(flush_rows hflush).2, ← hkey]
      apply Table.entries_rewrite b.store.resourceKeys hrow hkeeps.key
      intro q hq hother
      have hid : q.id ≠ (b.object row).id := by
        rw [hm.id]
        exact b.store.resourceIds.ne hq hrow hother
      exact if_neg hid

theorem Upserts.rowAfter_mem (h : Upserts host session tenantId call b r changed b') (hb : b.Sound) :
    b.rowAfter host session tenantId call ∈ b'.store.resources := by
  obtain ⟨-, -, hentries⟩ := h.row hb
  have hnew : Table.entries Resource.key b'.store.resources (call.key host tenantId) =
      some (b.rowAfter host session tenantId call) := by
    rw [hentries, Function.update_self]
  exact ((Table.entries_eq_some b'.store.resourceKeys).mp hnew).1

/-- What a row keeps when it is written. -/
theorem Writes.kept {row new : Resource} (h : Writes host tenantId call (some row) new) :
    new.id = row.id ∧ new.key = row.key ∧ new.subscriptionId = row.subscriptionId ∧
      new.firstSeenAt = row.firstSeenAt ∧ new.version = row.version + 1 := by
  cases h with
  | @updated _ loaded htaken hkey hm =>
    have hkeeps := keeps_rewritten (call.values host) loaded
    refine ⟨hkeeps.id row, hkeeps.key row, ?_⟩
    rw [rewritten_eq hm (congrArg Prod.snd hkey), ← hm.same]
    exact ⟨rfl, rfl, rfl⟩

/-- The row after a call has the call's key. -/
theorem Writes.key {old : Option Resource} {new : Resource} (h : Writes host tenantId call old new) :
    new.key = call.key host tenantId := by
  cases h with
  | inserted htaken => rfl
  | updated htaken hkey hm => exact ((keeps_rewritten _ _).key _).trans hkey

/-- The other rows are as they were. -/
theorem Upserts.others (h : Upserts host session tenantId call b r changed b') (hb : b.Sound) {row : Resource}
    (hkey : row.key ≠ call.key host tenantId) : row ∈ b'.store.resources ↔ row ∈ b.store.resources := by
  obtain ⟨-, -, hentries⟩ := h.row hb
  apply Table.mem_of_entries_eq b.store.resourceKeys b'.store.resourceKeys
  rw [hentries, Function.update_of_ne hkey]

theorem Upserts.held (h : Upserts host session tenantId call b r changed b') :
    ∀ q ∈ b'.held, q = r ∨ q ∈ b.held ∧ q.id ≠ r.id := by
  have hfiltered : ∀ q ∈ b.remember call r, q = r ∨ q ∈ b.held ∧ q.id ≠ r.id := by
    intro q hq
    cases List.mem_cons.mp (List.mem_of_mem_filter hq) with
    | inl hq => exact .inl hq
    | inr hq => exact .inr (by simpa using hq)
  cases h with
  | inserted => exact hfiltered
  | updated => exact hfiltered

theorem Upserts.sound (h : Upserts host session tenantId call b r changed b') (hb : b.Sound) : b'.Sound := by
  refine ⟨?_, ?_⟩
  · obtain ⟨hwrites, hm, -⟩ := h.row hb
    intro q hq
    cases h.held q hq with
    | inl heq => exact ⟨_, h.rowAfter_mem hb, heq ▸ hm⟩
    | inr hold =>
      obtain ⟨row, hrow, hmirrors⟩ := hb.held q hold.1
      have hkey : row.key ≠ call.key host tenantId := by
        intro hkey
        have hentry := (Table.entries_eq_some b.store.resourceKeys).mpr ⟨hrow, hkey⟩
        rw [hentry] at hwrites
        apply hold.2
        rw [hmirrors.id, hm.id]
        exact hwrites.kept.1.symm
      exact ⟨row, (h.others hb hkey).mpr hrow, hmirrors⟩
  · obtain ⟨hgroups, hpending⟩ := h.groups
    show Table.Unique _ (GroupWrite.apply b'.store.groups b'.pending)
    rw [hpending]
    have hbefore : Table.Unique ResourceGroup.key b'.store.groups := b'.store.groupKeys
    rcases apply_groupWrite host tenantId call.subscriptionId call.draw r b'.store with
      ⟨-, heq⟩ | ⟨-, ⟨hnew, heq⟩ | ⟨g, -, -, heq⟩⟩
    · rw [heq]
      exact hbefore
    · rw [heq]
      exact Table.unique_snoc.mpr ⟨hnew, hbefore⟩
    · rw [heq]
      exact hbefore.rewrite (keeps_groupSeen g.id call.draw.now).key

/-! ### Calls to try -/

def armItem (id : String) (properties : Json) (h : properties.WellFormed) : Json.Object where
  members := [("id", .str id), ("name", .str "vm"), ("type", .str "compute"), ("properties", properties)]
  wellFormed := by simpa [Json.WellFormed] using h

/-- The `n`-th call, at a time, for the subscription 30; what it returns stays in memory. -/
def armCall (n : Nat) (now : Instant) (item : Json.Object) : Call :=
  ⟨30, ⟨now, 1, 40 + BitVec.ofNat 128 n, 50 + BitVec.ofNat 128 n⟩, fun _ => true, item⟩

end Sentinel.Inventory
