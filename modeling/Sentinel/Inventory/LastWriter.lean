import Sentinel.Inventory.Batch
import Sentinel.Inventory.Stored
import Sentinel.Library.LastWrite

/-! A batch of upserts as a map keyed by ARM id.

Each call writes the row of its key (`Upserts.row`), so a row is what the last call with its
key made of it (`LastWrite.Written`), and the constraints never speak (`run_ends`). The two JSON
columns show what `jsonb` makes of a value, which need not be equal to it (`huge_not_equal`). -/
namespace Sentinel.Inventory
open Library Library.LastWrite Common

/-! ### Failures -/

/-- The database takes no such value, or the session may not write the tenant's rows. -/
def Refusal (f : Failure) : Prop := f = .refused ∨ f = .rowSecurity

/-- The ids the calls draw are new, and no two are the same. -/
def Batch.Fresh (calls : List Call) (b : Batch) : Prop :=
  (b.store.resources.map Resource.id ++ calls.map fun c => c.draw.id).Nodup ∧
    (b.groups.map ResourceGroup.id ++ calls.map fun c => c.draw.groupId).Nodup

section Failures
variable {host : Host} {session : Session} {tenantId : Uuid} {call : Call} {calls : List Call} {b b' : Batch}
  {r : Resource} {changed : Bool}

theorem flush_ends {s : Store} {w : Option GroupWrite}
    (hids : Table.Unique ResourceGroup.id (GroupWrite.apply s.groups w))
    (hkeys : Table.Unique ResourceGroup.key (GroupWrite.apply s.groups w)) :
    Fallible.Ends (fun f => f = .refused) (fun t => t.resources = s.resources) (flush s w) := by
  unfold flush
  split
  · exact rfl
  · rename_i g
    by_cases htext : Json.storableText g.normalizedName
    · rw [if_pos htext]
      have hid : g.id ∉ s.groups.map ResourceGroup.id := (Table.unique_snoc.mp hids).1
      have hkey : g.key ∉ s.groups.map ResourceGroup.key := (Table.unique_snoc.mp hkeys).1
      unfold Store.insertGroup
      rw [dif_neg hid, dif_neg hkey]
      exact rfl
    · rw [if_neg htext]
      exact rfl
  · exact rfl

theorem insertResource_ok {s : Store} {r : Resource} (hid : r.id ∉ s.resources.map Resource.id)
    (hkey : r.key ∉ s.resources.map Resource.key) : ∃ t, s.insertResource r = .ok t := by
  unfold Store.insertResource
  rw [dif_neg hid, dif_neg hkey]
  exact ⟨_, rfl⟩

/-- With ids that are new, the flush of a call fails as a refusal only. -/
theorem writeResource_refused {subscriptionId : Uuid} {draw : Draw} {v : ItemValues} (hb : b.Sound)
    (hids : Table.Unique ResourceGroup.id b.groups) (hnew : draw.id ∉ b.store.resources.map Resource.id) :
    Fallible.Ends Refusal (fun _ => True) (b.writeResource host session tenantId subscriptionId draw v) := by
  have hflush : Fallible.Ends Refusal (fun t => t.resources = b.store.resources) (flush b.store b.pending) :=
    (flush_ends hids hb.keys).mono (fun _ hf => .inl hf) fun _ ht => ht
  unfold Batch.writeResource
  split
  · apply hflush.bind
    intro t ht
    dsimp only
    split_ifs with hsees htaken
    · exact .inr rfl
    · exact .inl rfl
    · have hsession : ∀ q : Resource, q.tenantId = tenantId → session.sees q := by
        intro q hq
        have hwrites : session.sees (newResource draw tenantId subscriptionId v) := by simpa using hsees
        exact sees_of_sees hwrites hq
      have hkey := findResource_none hsession ‹_›
      rw [← ht] at hnew hkey
      obtain ⟨t', hinsert⟩ : ∃ t', t.insertResource (newResource draw tenantId subscriptionId v).stored = .ok t' :=
        insertResource_ok hnew hkey
      rw [hinsert]
      trivial
  · apply hflush.bind
    intro t _
    split_ifs
    · trivial
    · exact .inl rfl

theorem upsert_refused (hb : b.Sound) (hids : Table.Unique ResourceGroup.id b.groups)
    (hnew : call.draw.id ∉ b.store.resources.map Resource.id) (hid : (call.item.get "id").isSome) :
    Fallible.Ends Refusal (fun p => Upserts host session tenantId call b p.1 p.2.1 p.2.2)
      (b.upsert host session tenantId call) := by
  have hends : Fallible.Ends Refusal (fun _ => True) (b.upsert host session tenantId call) := by
    obtain ⟨id, hget⟩ := Option.isSome_iff_exists.mp hid
    unfold Batch.upsert
    rw [hget]
    exact (writeResource_refused hb hids hnew).bind fun _ _ => trivial
  cases hupsert : b.upsert host session tenantId call with
  | ok p => exact upserts_of_upsert hupsert
  | error f => exact hends.of_error hupsert

/-- The ids of the calls that follow stay new. -/
theorem Upserts.fresh (h : Upserts host session tenantId call b r changed b')
    (hfresh : b.Fresh (call :: calls)) : b'.Fresh calls := by
  obtain ⟨hresources, hgroups⟩ := hfresh
  refine ⟨?_, ?_⟩
  · cases h with
    | @inserted s t _ _ _ _ hflush hr _ hinsert =>
      subst hr
      show (t.resources.map Resource.id ++ _).Nodup
      rw [(insertResource_rows hinsert).1, (flush_rows hflush).2, List.map_append, List.append_assoc]
      exact hresources
    | @updated s t _ row _ _ _ hflush _ ht =>
      subst ht
      show ((s.resources.map (rewritten (call.values host) (b.object row))).map Resource.id ++ _).Nodup
      rw [Table.map_rewrite (keeps_rewritten _ _).id, (flush_rows hflush).2]
      exact hresources.sublist ((List.Sublist.refl _).append (List.sublist_cons_self ..))
  · obtain ⟨hflushed, hpending⟩ := h.groups
    show ((GroupWrite.apply b'.store.groups b'.pending).map ResourceGroup.id ++ _).Nodup
    rw [hpending]
    have hsame : (b.groups.map ResourceGroup.id ++ calls.map fun c => c.draw.groupId).Nodup :=
      hgroups.sublist ((List.Sublist.refl _).append (List.sublist_cons_self ..))
    rcases apply_groupWrite host tenantId call.subscriptionId call.draw r b'.store with
      ⟨-, heq⟩ | ⟨-, ⟨-, heq⟩ | ⟨g, -, -, heq⟩⟩
    · rw [heq, hflushed]
      exact hsame
    · rw [heq, hflushed, List.map_append, List.append_assoc]
      exact hgroups
    · rw [heq, hflushed, Table.map_rewrite (keeps_groupSeen g.id call.draw.now).id]
      exact hsame

/-- With ids that are new, the calls fail as a refusal only. -/
theorem run_ends (hids : ∀ c ∈ calls, (c.item.get "id").isSome) (hb : b.Sound) (hfresh : b.Fresh calls) :
    Fallible.Ends Refusal (fun p => p.2.Sound ∧ p.2.Fresh []) (b.run host session tenantId calls) := by
  induction calls generalizing b with
  | nil => exact ⟨hb, hfresh⟩
  | cons call rest ih =>
    have hgroupIds : Table.Unique ResourceGroup.id b.groups := hfresh.2.of_append_left
    have hnew : call.draw.id ∉ b.store.resources.map Resource.id := by
      intro hmem
      exact List.disjoint_of_nodup_append hfresh.1 hmem (List.mem_cons_self ..)
    apply (upsert_refused hb hgroupIds hnew (hids call (List.mem_cons_self ..))).bind
    intro p hupserts
    apply (ih (fun c hc => hids c (List.mem_cons_of_mem _ hc)) (hupserts.sound hb) (hupserts.fresh hfresh)).bind
    intro q hq
    exact hq

end Failures

/-! ### Rows -/

/-- The column has a value equal to the one given, as it is or as `jsonb` gives it back. -/
def InColumn (given column : Json) : Prop :=
  ∃ value, (value = given ∨ Python.eq value given) ∧ (column = value ∨ column = value.reload)

/-- The content of the row is what the values say, and the resource is there. -/
structure ItemValues.WrittenIn (v : ItemValues) (r : Resource) : Prop where
  azureResourceId : r.azureResourceId = v.azureResourceId
  normalizedResourceId : r.normalizedResourceId = v.normalizedResourceId
  resourceType : r.resourceType = v.resourceType
  name : r.name = v.name
  resourceGroup : r.resourceGroup = v.resourceGroup
  location : nullableText v.location = some r.location
  kind : nullableText v.kind = some r.kind
  sku : r.sku = v.sku
  tags : InColumn v.tags r.tags
  properties : InColumn v.properties r.properties
  state : r.state = .active
  missingSince : r.missingSince = none

section Rows
variable {host : Host} {session : Session} {tenantId : Uuid} {call : Call} {calls : List Call} {b b' : Batch}
  {r : Resource} {changed : Bool}

theorem inColumn_written (given : Json) {loaded column : Json} (h : column = loaded ∨ column = loaded.reload) :
    InColumn given (if Python.eq loaded given then column else given.reload) := by
  by_cases heq : Python.eq loaded given
  · rw [if_pos heq]
    exact ⟨loaded, .inr heq, h⟩
  · rw [if_neg heq]
    exact ⟨given, .inl rfl, .inr rfl⟩

theorem Writes.writtenIn {old : Option Resource} {new : Resource} (h : Writes host tenantId call old new) :
    (call.values host).WrittenIn new := by
  cases h with
  | inserted htaken =>
    obtain ⟨hlocation, hkind⟩ := ItemValues.taken_texts htaken
    exact ⟨rfl, rfl, rfl, rfl, rfl, hlocation, hkind, rfl, ⟨_, .inl rfl, .inr rfl⟩, ⟨_, .inl rfl, .inr rfl⟩, rfl, rfl⟩
  | @updated row loaded htaken hkey hm =>
    obtain ⟨hlocation, hkind⟩ := ItemValues.taken_texts htaken
    rw [rewritten_eq hm (congrArg Prod.snd hkey)]
    exact ⟨rfl, rfl, rfl, rfl, rfl, hlocation, hkind, rfl, inColumn_written _ hm.tags,
      inColumn_written _ hm.properties, rfl, rfl⟩

/-- The calls write the table as a map of its keys. -/
theorem written_of_run {n : Nat} (hb : b.Sound) (h : b.run host session tenantId calls = .ok (n, b')) :
    Written (Call.key host tenantId) (Writes host tenantId) calls
      (Table.entries Resource.key b.store.resources) (Table.entries Resource.key b'.store.resources) := by
  induction calls generalizing b n with
  | nil =>
    cases h
    exact .nil _
  | cons call rest ih =>
    obtain ⟨r, changed, t, count, hupsert, hrest, -⟩ := run_cons_eq_ok.mp h
    have hupserts := upserts_of_upsert hupsert
    obtain ⟨hwrites, -, hentries⟩ := hupserts.row hb
    have hwritten := ih (hupserts.sound hb) hrest
    rw [hentries] at hwritten
    exact .cons hwrites hwritten

/-- The names of groups are normalized as Python does. -/
def Normalized (host : Host) (groups : List ResourceGroup) : Prop :=
  ∀ g ∈ groups, g.normalizedName = host.py.lower g.name

theorem normalized_groupSeen {groups : List ResourceGroup} (h : Normalized host groups) (id : Uuid) (now : Instant) :
    Normalized host (groups.map (groupSeen id now)) := by
  intro g hg
  obtain ⟨q, hq, rfl⟩ := List.mem_map.mp hg
  unfold groupSeen
  split_ifs
  · exact h q hq
  · exact h q hq

theorem Upserts.normalized (h : Upserts host session tenantId call b r changed b')
    (hb : Normalized host b.groups) : Normalized host b'.groups := by
  obtain ⟨hflushed, hpending⟩ := h.groups
  unfold Batch.groups at hb ⊢
  rw [hpending]
  rcases apply_groupWrite host tenantId call.subscriptionId call.draw r b'.store with
    ⟨-, heq⟩ | ⟨-, ⟨-, heq⟩ | ⟨g, -, -, heq⟩⟩
  · rw [heq, hflushed]
    exact hb
  · rw [heq, hflushed]
    intro g hg
    cases List.mem_append.mp hg with
    | inl hg => exact hb g hg
    | inr hg =>
      rw [List.mem_singleton.mp hg]
      rfl
  · rw [heq, hflushed]
    exact normalized_groupSeen hb _ _

theorem normalized_of_run {n : Nat} (hb : Normalized host b.groups)
    (h : b.run host session tenantId calls = .ok (n, b')) : Normalized host b'.groups := by
  induction calls generalizing b n with
  | nil =>
    cases h
    exact hb
  | cons call rest ih =>
    obtain ⟨r, changed, t, count, hupsert, hrest, -⟩ := run_cons_eq_ok.mp h
    exact ih ((upserts_of_upsert hupsert).normalized hb) hrest

end Rows

/-! ### The batch -/

/-- The calls with the key. -/
def about (host : Host) (tenantId : Uuid) (calls : List Call) (key : Uuid × String) : List Call :=
  calls.filter fun c => c.key host tenantId = key

/-- The row is the one it was, written `n` times. -/
structure SameRow (r : Resource) (n : Nat) (q : Resource) : Prop where
  id : q.id = r.id
  subscriptionId : q.subscriptionId = r.subscriptionId
  firstSeenAt : q.firstSeenAt = r.firstSeenAt
  version : q.version = r.version + n

theorem SameRow.write {host : Host} {tenantId : Uuid} (r : Resource) (n : Nat) (call : Call) (q new : Resource)
    (h : SameRow r n q) (hwrites : Writes host tenantId call (some q) new) : SameRow r (n + 1) new := by
  obtain ⟨hid, -, hsubscription, hfirst, hversion⟩ := hwrites.kept
  refine ⟨hid.trans h.id, hsubscription.trans h.subscriptionId, hfirst.trans h.firstSeenAt, ?_⟩
  rw [hversion, h.version, Nat.add_assoc]

/-- What a batch makes of the tables: for each key with a call, one row, as the last of them
says; a row that was there is the same one, its version as much higher as there are calls for
it; and the other rows are as they were. -/
structure LastWriterWins (host : Host) (tenantId : Uuid) (calls : List Call) (s s' : Store) : Prop where
  one : ∀ key, (s'.resources.map Resource.key).count key ≤ 1
  present : ∀ key, (∃ r ∈ s'.resources, r.key = key) ↔
    (∃ r ∈ s.resources, r.key = key) ∨ ∃ c ∈ calls, c.key host tenantId = key
  last : ∀ key c, (about host tenantId calls key).getLast? = some c →
    ∃ r ∈ s'.resources, r.key = key ∧ (c.values host).WrittenIn r
  kept : ∀ r ∈ s.resources, ∃ r' ∈ s'.resources, r'.key = r.key ∧ SameRow r (about host tenantId calls r.key).length r'
  others : ∀ r : Resource, (∀ c ∈ calls, c.key host tenantId ≠ r.key) → (r ∈ s'.resources ↔ r ∈ s.resources)
  groups : (∀ g ∈ s.groups, g.normalizedName = host.py.lower g.name) →
    (s'.groups.map fun g => (g.tenantId, g.subscriptionId, host.py.lower g.name)).Nodup

theorem lastWriterWins_of_written {host : Host} {tenantId : Uuid} {calls : List Call} {s s' : Store}
    (h : Written (Call.key host tenantId) (Writes host tenantId) calls
      (Table.entries Resource.key s.resources) (Table.entries Resource.key s'.resources))
    (hgroups : Normalized host s.groups → Normalized host s'.groups) : LastWriterWins host tenantId calls s s' where
  one := List.nodup_iff_count_le_one.mp s'.resourceKeys
  present := by
    intro key
    have hsome := (h.entry key).isSome
    rw [Table.entries_isSome, Table.entries_isSome] at hsome
    apply hsome.trans
    apply or_congr_right
    simp [List.filter_eq_nil_iff]
  last := by
    intro key c hc
    obtain ⟨old, new, hwrites, hentry⟩ := (h.entry key).last hc
    obtain ⟨hnew, hkey⟩ := (Table.entries_eq_some s'.resourceKeys).mp hentry
    exact ⟨new, hnew, hkey, hwrites.writtenIn⟩
  kept := by
    intro r hr
    have hentry := h.entry r.key
    rw [(Table.entries_eq_some s.resourceKeys).mpr ⟨hr, rfl⟩] at hentry
    have hfirst : SameRow r 0 r := ⟨rfl, rfl, rfl, rfl⟩
    obtain ⟨new, hnew, hsame⟩ := hentry.counted (fun n c q new hq => SameRow.write r n c q new hq) hfirst
    obtain ⟨hmem, hkey⟩ := (Table.entries_eq_some s'.resourceKeys).mp hnew
    rw [Nat.zero_add] at hsame
    exact ⟨new, hmem, hkey, hsame⟩
  others := by
    intro r hr
    exact Table.mem_of_entries_eq s.resourceKeys s'.resourceKeys (h.untouched hr)
  groups := by
    intro hbefore
    have hkeys : (s'.groups.map fun g => (g.tenantId, g.subscriptionId, host.py.lower g.name)) =
        s'.groups.map ResourceGroup.key := by
      apply List.map_congr_left
      intro g hg
      rw [ResourceGroup.key, hgroups hbefore g hg]
    rw [hkeys]
    exact s'.groupKeys

/-- **A batch is a last-writer-wins update.** If the ids it draws are new, it fails only because
the database does not take a value or the session may not write the tenant's rows, never
by a uniqueness constraint; and if it succeeds, the tables are as `LastWriterWins` says. -/
theorem upserts_last_writer_wins (host : Host) (session : Session) (tenantId : Uuid) (calls : List Call) (s : Store)
    (hids : ∀ c ∈ calls, (c.item.get "id").isSome) (hfresh : (Batch.start s).Fresh calls) :
    (∀ f, upsertAll host session tenantId calls s = .error f → f = .refused ∨ f = .rowSecurity) ∧
      ∀ n s', upsertAll host session tenantId calls s = .ok (n, s') → LastWriterWins host tenantId calls s s' := by
  refine ⟨?_, ?_⟩
  · intro f hf
    have hends : Fallible.Ends Refusal (fun _ => True) (upsertAll host session tenantId calls s) := by
      unfold upsertAll
      apply (run_ends hids (sound_start s) hfresh).bind
      intro p hp
      have hgroupIds : Table.Unique ResourceGroup.id p.2.groups := hp.2.2.of_append_left
      apply (flush_ends hgroupIds hp.1.keys).mono (fun _ hf => Or.inl hf) (fun _ ht => ht) |>.bind
      intro t _
      trivial
    exact hends.of_error hf
  · intro n s' h
    obtain ⟨b, hrun, hflush⟩ := upsertAll_eq_ok.mp h
    obtain ⟨hgroups, hresources⟩ := flush_rows hflush
    have hwritten := written_of_run (sound_start s) hrun
    rw [← hresources] at hwritten
    apply lastWriterWins_of_written hwritten
    intro hbefore
    rw [hgroups]
    exact normalized_of_run (b := Batch.start s) hbefore hrun

/-! ### Two calls, and a number -/

/-- One resource twice, its id in two spellings. -/
def spelledTwice : List Call :=
  [armCall 0 2 (armItem "/subscriptions/3/VM" (.obj []) Json.wellFormed_empty),
    armCall 1 3 (armItem "/subscriptions/3/vm" (.obj [("size", .int 2)]) (by simp [Json.WellFormed]))]

theorem upserts_last_writer_wins_spelled : ∃ n s',
    upsertAll sampleHost ⟨true, none⟩ 1 spelledTwice .empty = .ok (n, s') ∧
      LastWriterWins sampleHost 1 spelledTwice .empty s' := by
  have hsome : (upsertAll sampleHost ⟨true, none⟩ 1 spelledTwice .empty).toOption.isSome = true := by decide +kernel
  have hfresh : (Batch.start .empty).Fresh spelledTwice := ⟨by decide +kernel, by decide +kernel⟩
  have h := upserts_last_writer_wins sampleHost ⟨true, none⟩ 1 spelledTwice .empty (by decide +kernel) hfresh
  obtain ⟨⟨n, s'⟩, hrun⟩ := Option.isSome_iff_exists.mp hsome
  replace hrun := Fallible.toOption_eq_some.mp hrun
  exact ⟨n, s', hrun, h.2 n s' hrun⟩

/-- `1e23`. -/
def huge : Json := .float (.finite (.powerOfTen 23))

def hugeCall : Call := armCall 0 2 (armItem "/subscriptions/3/vm" (.obj [("x", huge)]) (by simp [Json.WellFormed, huge]))

/-- The column shows the integer `10 ^ 23`, which Python does not find equal. -/
theorem huge_not_equal : (upsertAll sampleHost ⟨true, none⟩ 1 [hugeCall] .empty).toOption.map (fun p =>
    p.2.resources.map fun r => ((r.key = hugeCall.key sampleHost 1 : Bool),
      Python.eq r.properties (hugeCall.values sampleHost).properties)) = some [(true, false)] := by
  decide +kernel

end Sentinel.Inventory
