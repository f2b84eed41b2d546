import Sentinel.Inventory.Batch
import Sentinel.Library.Transition

/-! Resource groups, stored twice.

A resource group is among the resources and among the groups, and one call writes both. The
resource is written whenever it changes, the group when it is new and then only seen again;
and the group goes by the subscription of the call, the resource by that it was first seen in.
So the two agree along a run exactly as long as no call changes one of them alone
(`groups_mirror_iff`, `tags_left_behind`). -/
namespace Sentinel.Inventory
open Library Library.Transition Common

/-- The database, and the session that writes it. -/
structure Sync where
  committed : Store
  batch : Batch

inductive SyncAction where
  | call (session : Session) (tenantId : Uuid) (call : Call)
  | commit
  /-- A call or the commit raises, or the process ends. -/
  | rollback

/-- A session begins. -/
def Sync.start (s : Store) : Sync := ⟨s, .start s⟩

section Mirrored
variable (host : Host)

def Sync.step (a : SyncAction) (s : Sync) : Option Sync :=
  match a with
  | .call session tenantId call =>
    (s.batch.upsert host session tenantId call).toOption.map fun p => {s with batch := p.2.2}
  | .commit => (flush s.batch.store s.batch.pending).toOption.map .start
  | .rollback => some (.start s.committed)

/-- The key of the group that a resource is. -/
def groupKey (r : Resource) : Uuid × Uuid × String := (r.tenantId, r.subscriptionId, host.py.lower r.name)

/-- Each resource group among the resources has one group, which says the same. -/
def Mirrored (resources : List Resource) (groups : List ResourceGroup) : Prop :=
  ∀ r ∈ resources, r.resourceType = resourceGroupType →
    ∃ g, groups.filter (fun g => g.key = groupKey host r) = [g] ∧
      g.name = r.name ∧ g.location = r.location ∧ g.tags = r.tags

/-- So it is in the database, and for the session, whatever it is still to flush. -/
def Sync.Mirrors (s : Sync) : Prop :=
  Mirrored host s.committed.resources s.committed.groups ∧ Mirrored host s.batch.store.resources s.batch.groups

/-- What is said of the group with the key. -/
def shown (groups : List ResourceGroup) (key : Uuid × Uuid × String) : Option (String × Option String × Json) :=
  (Table.entries ResourceGroup.key groups key).map fun g => (g.name, g.location, g.tags)

variable (session : Session) (tenantId : Uuid)

/-- The subscription of a call's row, once it is written. -/
def Batch.subscriptionAfter (call : Call) (b : Batch) : Uuid :=
  match findResource session tenantId (call.values host).normalizedResourceId b.store with
  | none => call.subscriptionId
  | some row => row.subscriptionId

/-- The tags of a call's row, once it is written. -/
def Batch.tagsAfter (call : Call) (b : Batch) : Json :=
  match findResource session tenantId (call.values host).normalizedResourceId b.store with
  | none => (call.values host).tags.reload
  | some row =>
    if Python.eq (b.object row).tags (call.values host).tags then row.tags else (call.values host).tags.reload

/-- A call about a resource group finds a group that says what the item does, or none, and is
for the subscription the resource is in. -/
def Call.IsMirrored (call : Call) (b : Batch) : Prop :=
  (call.values host).resourceType = resourceGroupType →
    let found := shown b.groups
      (tenantId, b.subscriptionAfter host session tenantId call, host.py.lower (call.values host).name)
    found = some ((call.values host).name, (nullableText (call.values host).location).join,
      b.tagsAfter host session tenantId call) ∨
    found = none ∧ b.subscriptionAfter host session tenantId call = call.subscriptionId

def KeepsMirror (s : Sync) (a : SyncAction) (_ : Sync) : Prop :=
  match a with
  | .call session tenantId call => call.IsMirrored host session tenantId s.batch
  | _ => True

end Mirrored

variable {host : Host} {session : Session} {tenantId : Uuid} {call : Call} {b b' : Batch} {r : Resource} {changed : Bool}

theorem filter_eq_of_entries {groups : List ResourceGroup} (h : Table.Unique ResourceGroup.key groups)
    {key : Uuid × Uuid × String} {g : ResourceGroup} (hg : Table.entries ResourceGroup.key groups key = some g) :
    groups.filter (fun q => q.key = key) = [g] := by
  obtain ⟨hmem, hkey⟩ := (Table.entries_eq_some h).mp hg
  have hnodup : (groups.filter fun q => q.key = key).Nodup := (List.Nodup.of_map _ h).filter _
  apply List.perm_singleton.mp
  apply (List.perm_ext_iff_of_nodup hnodup (List.nodup_singleton g)).mpr
  intro q
  rw [List.mem_filter, List.mem_singleton]
  refine ⟨?_, ?_⟩
  · intro hq
    exact h.eq hq.1 hmem ((of_decide_eq_true hq.2).trans hkey.symm)
  · intro hq
    rw [hq]
    exact ⟨hmem, decide_eq_true hkey⟩

/-- With unique keys, the group is the one that is looked up. -/
theorem mirrored_iff {resources : List Resource} {groups : List ResourceGroup}
    (h : Table.Unique ResourceGroup.key groups) : Mirrored host resources groups ↔
      ∀ r ∈ resources, r.resourceType = resourceGroupType →
        shown groups (groupKey host r) = some (r.name, r.location, r.tags) := by
  unfold Mirrored shown
  refine ⟨?_, ?_⟩
  · intro hm r hr htype
    obtain ⟨g, hfilter, hname, hlocation, htags⟩ := hm r hr htype
    have hg : g ∈ groups.filter (fun g => g.key = groupKey host r) := by
      rw [hfilter]
      exact List.mem_singleton_self g
    obtain ⟨hmem, hkey⟩ := List.mem_filter.mp hg
    rw [(Table.entries_eq_some h).mpr ⟨hmem, of_decide_eq_true hkey⟩, ← hname, ← hlocation, ← htags]
    rfl
  · intro hm r hr htype
    obtain ⟨g, hentry, heq⟩ := Option.map_eq_some_iff.mp (hm r hr htype)
    simp only [Prod.mk.injEq] at heq
    exact ⟨g, filter_eq_of_entries h hentry, heq⟩

/-! ### What a call does -/

/-- Groups that are seen again say what they said. -/
theorem shown_groupSeen (groups : List ResourceGroup) (id : Uuid) (now : Instant) :
    shown (groups.map (groupSeen id now)) = shown groups := by
  funext key
  unfold shown Table.entries
  have hkeys : (fun g => decide (ResourceGroup.key g = key)) ∘ groupSeen id now =
      fun g => decide (ResourceGroup.key g = key) := by
    funext g
    simp only [Function.comp, (keeps_groupSeen id now).key g]
  rw [List.find?_map, hkeys, Option.map_map]
  congr 1
  funext g
  simp only [Function.comp, groupSeen]
  split_ifs <;> rfl

/-- A group is added if the resource is one and its key is new; nothing else that is said
changes. -/
theorem shown_after (h : Upserts host session tenantId call b r changed b') :
    shown b'.groups = if r.resourceType = resourceGroupType ∧
        shown b.groups (tenantId, call.subscriptionId, host.py.lower r.name) = none
      then Function.update (shown b.groups) (tenantId, call.subscriptionId, host.py.lower r.name)
        (some (r.name, r.location, r.tags.reload))
      else shown b.groups := by
  obtain ⟨hflushed, hpending⟩ := h.groups
  have hnone : ∀ key, shown b.groups key = none ↔ key ∉ b'.store.groups.map ResourceGroup.key := by
    intro key
    rw [← hflushed, shown, Option.map_eq_none_iff, ← Option.not_isSome_iff_eq_none, Table.entries_isSome, List.mem_map]
  show shown (GroupWrite.apply b'.store.groups b'.pending) = _
  rw [hpending]
  rcases apply_groupWrite host tenantId call.subscriptionId call.draw r b'.store with
    ⟨htype, heq⟩ | ⟨htype, ⟨hnew, heq⟩ | ⟨g, hg, hkey, heq⟩⟩
  · rw [heq, hflushed, if_neg fun hif => htype hif.1]
  · rw [heq, if_pos ⟨htype, (hnone _).mpr hnew⟩, ← hflushed]
    have hadded : Table.entries ResourceGroup.key
        (b'.store.groups ++ [newGroup host call.draw tenantId call.subscriptionId r]) =
        Function.update (Table.entries ResourceGroup.key b'.store.groups)
          (tenantId, call.subscriptionId, host.py.lower r.name)
          (some (newGroup host call.draw tenantId call.subscriptionId r)) := Table.entries_snoc hnew
    funext key
    unfold shown
    rw [hadded]
    by_cases hk : key = (tenantId, call.subscriptionId, host.py.lower r.name)
    · subst hk
      rw [Function.update_self, Function.update_self]
      rfl
    · rw [Function.update_of_ne hk, Function.update_of_ne hk]
  · have hthere : ¬ (r.resourceType = resourceGroupType ∧
        shown b.groups (tenantId, call.subscriptionId, host.py.lower r.name) = none) := by
      intro hif
      exact (hnone _).mp hif.2 (hkey ▸ List.mem_map_of_mem hg)
    rw [heq, if_neg hthere, shown_groupSeen, hflushed]

/-- What a call's row says, once it is written. -/
theorem rowAfter_content (h : Upserts host session tenantId call b r changed b') (hb : b.Sound) :
    groupKey host (b.rowAfter host session tenantId call) =
        (tenantId, b.subscriptionAfter host session tenantId call, host.py.lower (call.values host).name) ∧
      (b.rowAfter host session tenantId call).resourceType = (call.values host).resourceType ∧
      (b.rowAfter host session tenantId call).name = (call.values host).name ∧
      (b.rowAfter host session tenantId call).location = (nullableText (call.values host).location).join ∧
      (b.rowAfter host session tenantId call).tags = b.tagsAfter host session tenantId call := by
  unfold Batch.rowAfter Batch.subscriptionAfter Batch.tagsAfter groupKey
  cases h with
  | inserted _ _ hfind =>
    simp only [hfind]
    exact ⟨rfl, rfl, rfl, rfl, rfl⟩
  | @updated _ _ _ row _ _ hfind =>
    obtain ⟨hrow, hkey⟩ := findResource_some hfind
    have hm := hb.object hrow
    have htenant : (b.object row).tenantId = tenantId := congrArg Prod.fst (hm.key.trans hkey)
    simp only [hfind, rewritten_eq hm (congrArg Prod.snd hkey), seenAgain, htenant, hm.subscriptionId, and_self]

/-- The tags columns are as `jsonb` gives them back. -/
def Reloaded (resources : List Resource) : Prop := ∀ r ∈ resources, r.tags.reload = r.tags

theorem reloaded_upsert (h : Upserts host session tenantId call b r changed b') (hb : b.Sound)
    (hrows : Reloaded b.store.resources) : Reloaded b'.store.resources := by
  intro q hq
  by_cases hkey : q.key = call.key host tenantId
  · obtain ⟨hwrites, -, -⟩ := h.row hb
    obtain rfl : b.rowAfter host session tenantId call = q :=
      b'.store.resourceKeys.eq (h.rowAfter_mem hb) hq (hwrites.key.trans hkey.symm)
    rw [(rowAfter_content h hb).2.2.2.2, Batch.tagsAfter]
    split
    · exact Json.reload_reload _
    · rename_i row hfind
      split_ifs
      · exact hrows row (findResource_some hfind).1
      · exact Json.reload_reload _
  · exact hrows q ((h.others hb hkey).mp hq)

/-- The group a call adds has the tags of the row. -/
theorem reload_tags (h : Upserts host session tenantId call b r changed b') (hb : b.Sound)
    (hrows : Reloaded b.store.resources) :
    r.tags.reload = (b.rowAfter host session tenantId call).tags := by
  obtain ⟨-, hm, -⟩ := h.row hb
  cases hm.tags with
  | inl heq =>
    rw [← heq]
    exact reloaded_upsert h hb hrows _ (h.rowAfter_mem hb)
  | inr heq => exact heq.symm

/-- A call that succeeds keeps the mirror exactly if its item is mirrored. -/
theorem mirrored_upsert (h : Upserts host session tenantId call b r changed b') (hb : b.Sound)
    (hrows : Reloaded b.store.resources) (hmirrored : Mirrored host b.store.resources b.groups) :
    Mirrored host b'.store.resources b'.groups ↔ call.IsMirrored host session tenantId b := by
  obtain ⟨hkey, htype, hname, hlocation, htags⟩ := rowAfter_content h hb
  obtain ⟨hwrites, hm, -⟩ := h.row hb
  have hgroup := shown_after h
  have hrName : r.name = (call.values host).name := by
    rw [← hname, ← hm.same]
  have hrType : r.resourceType = (call.values host).resourceType := by
    rw [← htype, ← hm.same]
  have hrLocation : r.location = (nullableText (call.values host).location).join := by
    rw [← hlocation, ← hm.same]
  rw [reload_tags h hb hrows, hrName, hrType, hrLocation, htags] at hgroup
  rw [mirrored_iff hb.keys] at hmirrored
  rw [mirrored_iff (h.sound hb).keys]
  refine ⟨?_, ?_⟩
  · intro hafter hRG
    have hnew := hafter _ (h.rowAfter_mem hb) (htype.trans hRG)
    rw [hkey, hname, hlocation, htags, hgroup] at hnew
    split_ifs at hnew with hadd
    · by_cases hsub : b.subscriptionAfter host session tenantId call = call.subscriptionId
      · rw [hsub]
        exact .inr ⟨hadd.2, rfl⟩
      · rw [Function.update_of_ne fun heq => hsub (Prod.mk.inj (Prod.mk.inj heq).2).1] at hnew
        exact .inl hnew
    · exact .inl hnew
  · intro hcond q hq hqType
    rw [hgroup]
    by_cases hqKey : q.key = call.key host tenantId
    · obtain rfl : b.rowAfter host session tenantId call = q :=
        b'.store.resourceKeys.eq (h.rowAfter_mem hb) hq (hwrites.key.trans hqKey.symm)
      have hRG : (call.values host).resourceType = resourceGroupType := htype.symm.trans hqType
      rw [hkey, hname, hlocation, htags]
      cases hcond hRG with
      | inl hfound =>
        split_ifs with hadd
        · by_cases hsub : b.subscriptionAfter host session tenantId call = call.subscriptionId
          · rw [hsub, Function.update_self]
          · rw [Function.update_of_ne fun heq => hsub (Prod.mk.inj (Prod.mk.inj heq).2).1]
            exact hfound
        · exact hfound
      | inr hfound =>
        obtain ⟨hnone, hsub⟩ := hfound
        rw [hsub] at hnone ⊢
        rw [if_pos ⟨hRG, hnone⟩, Function.update_self]
    · have hsaid := hmirrored q ((h.others hb hqKey).mp hq) hqType
      split_ifs with hadd
      · have hother : groupKey host q ≠ (tenantId, call.subscriptionId, host.py.lower (call.values host).name) := by
          intro heq
          rw [heq, hadd.2] at hsaid
          cases hsaid
        rw [Function.update_of_ne hother]
        exact hsaid
      · exact hsaid

/-! ### Runs -/

structure Sync.Sound (s : Sync) : Prop where
  batch : s.batch.Sound
  rows : Reloaded s.batch.store.resources
  committed : Reloaded s.committed.resources

theorem Sync.sound_start {s : Store} (h : Reloaded s.resources) : (Sync.start s).Sound :=
  ⟨Inventory.sound_start s, h, h⟩

section Steps
variable {a : SyncAction} {s t : Sync}

theorem call_of_step (hs : Sync.step host (.call session tenantId call) s = some t) : ∃ r changed,
    Upserts host session tenantId call s.batch r changed t.batch ∧ t.committed = s.committed := by
  obtain ⟨⟨r, changed, b⟩, hupsert, rfl⟩ := Option.map_eq_some_iff.mp hs
  exact ⟨r, changed, upserts_of_upsert (Fallible.toOption_eq_some.mp hupsert), rfl⟩

theorem commit_of_step (hs : Sync.step host .commit s = some t) : ∃ u : Store,
    t = .start u ∧ u.resources = s.batch.store.resources ∧ u.groups = s.batch.groups := by
  obtain ⟨u, hflush, rfl⟩ := Option.map_eq_some_iff.mp hs
  obtain ⟨hgroups, hresources⟩ := flush_rows (Fallible.toOption_eq_some.mp hflush)
  exact ⟨u, rfl, hresources, hgroups⟩

theorem sound_step (h : s.Sound) (hs : Sync.step host a s = some t) : t.Sound := by
  cases a with
  | call session tenantId call =>
    obtain ⟨r, changed, hupserts, hcommitted⟩ := call_of_step hs
    refine ⟨hupserts.sound h.batch, reloaded_upsert hupserts h.batch h.rows, ?_⟩
    rw [hcommitted]
    exact h.committed
  | commit =>
    obtain ⟨u, rfl, hresources, -⟩ := commit_of_step hs
    apply Sync.sound_start
    rw [hresources]
    exact h.rows
  | rollback =>
    cases hs
    exact Sync.sound_start h.committed

theorem mirrors_step (h : s.Sound) (hmirrors : s.Mirrors host) (hs : Sync.step host a s = some t) :
    t.Mirrors host ↔ KeepsMirror host s a t := by
  cases a with
  | call session tenantId call =>
    obtain ⟨r, changed, hupserts, hcommitted⟩ := call_of_step hs
    unfold Sync.Mirrors
    rw [hcommitted, and_iff_right hmirrors.1]
    exact mirrored_upsert hupserts h.batch h.rows hmirrors.2
  | commit =>
    obtain ⟨u, rfl, hresources, hgroups⟩ := commit_of_step hs
    have hafter : Mirrored host u.resources u.groups := by
      rw [hresources, hgroups]
      exact hmirrors.2
    exact ⟨fun _ => trivial, fun _ => ⟨hafter, hafter⟩⟩
  | rollback =>
    cases hs
    exact ⟨fun _ => trivial, fun _ => ⟨hmirrors.1, hmirrors.1⟩⟩

end Steps

/-- **The groups mirror the resource groups** all along a run of calls, commits and failures
exactly if every call about a resource group finds a group that says what its item does, or
finds none and is for the subscription the resource is in. -/
theorem groups_mirror_iff (host : Host) (actions : List SyncAction) :
    Always (Sync.step host) (Sync.Mirrors host) actions (.start .empty) ↔
      EveryStep (Sync.step host) (KeepsMirror host) actions (.start .empty) := by
  have hempty : Mirrored host [] [] := fun _ hr => nomatch hr
  have hsound : (Sync.start .empty).Sound := Sync.sound_start fun _ hr => nomatch hr
  apply always_iff_everyStep (N := fun _ => True) hsound ⟨hempty, hempty⟩
  · exact Always.of_invariant actions trivial fun _ _ _ _ _ => trivial
  · exact fun _ _ _ h hs => sound_step h hs
  · exact fun _ _ _ h _ _ hmirrors hs => mirrors_step h hmirrors hs

/-! ### Tags that change -/

def groupItem (tags : Json) (h : tags.WellFormed) : Json.Object where
  members := [("id", .str "/subscriptions/3/resourceGroups/prod"), ("name", .str "prod"),
    ("type", .str "Microsoft.Resources/subscriptions/resourceGroups"), ("location", .str "westeurope"), ("tags", tags)]
  wellFormed := by simpa [Json.WellFormed] using h

/-- A resource group is seen, and seen again with a tag. -/
def retagged : List SyncAction :=
  [.call ⟨true, none⟩ 1 (armCall 0 2 (groupItem (.obj []) Json.wellFormed_empty)),
    .call ⟨true, none⟩ 1 (armCall 1 3 (groupItem (.obj [("env", .str "prod")]) (by simp [Json.WellFormed]))), .commit]

/-- The resource has the tag and the group does not. -/
theorem tags_left_behind : ¬ Always (Sync.step sampleHost) (Sync.Mirrors sampleHost) retagged (.start .empty) := by
  intro h
  have hend : (run (Sync.step sampleHost) retagged (.start .empty)).map (fun s =>
      s.committed.resources.all fun r => r.resourceType ≠ resourceGroupType ||
        s.committed.groups.any fun g => g.tags.dumps = r.tags.dumps) = some false := by decide +kernel
  obtain ⟨s, hrun, hdiffer⟩ := Option.map_eq_some_iff.mp hend
  have hmirrored := (h.last hrun).1
  apply Bool.eq_false_iff.mp hdiffer
  rw [List.all_eq_true]
  intro r hr
  by_cases htype : r.resourceType = resourceGroupType
  · obtain ⟨g, hfilter, -, -, hsame⟩ := hmirrored r hr htype
    have hg : g ∈ s.committed.groups.filter fun g => g.key = groupKey sampleHost r := by
      rw [hfilter]
      exact List.mem_singleton_self g
    have hany : (s.committed.groups.any fun g => g.tags.dumps = r.tags.dumps) = true :=
      List.any_eq_true.mpr ⟨g, List.mem_of_mem_filter hg, decide_eq_true (congrArg Json.dumps hsame)⟩
    rw [hany, Bool.or_true]
  · simp [htype]

end Sentinel.Inventory
