import Sentinel.Commands.RowVersions
import Sentinel.Identity.Onboarding

/-! Versions count updates, where no transaction is overtaken.

What a worker holds in memory of a resource is the row as the transaction itself last left it
(`Held`); with the like for users and subscriptions, each transaction does to a row again what
follows on what it did before, and the count comes down to the versions read first. -/
namespace Sentinel.Commands.RowVersions
open Library Library.Table Library.Transition Library.ReadCommitted Library.Versions
open Identity (User)
open Inventory (Batch Call Discovered ResourceWrite Resource Storing Subscription Upserts)

/-! ### Resources -/

section Resources
variable {host : Inventory.Host} {session : Inventory.Session} {tenantId : Uuid} {s s' : Inventory.Store}

variable (s) in
/-- Only the resources have changed. -/
theorem onlyResources (identity : Identity.Store) {resources : List Resource} (h : s'.resources = resources)
    (hsubscriptions : s'.subscriptions = s.subscriptions) :
    OnlyTable Row.resource Resource.id Resource.version s.resources resources
      (versions identity s) (versions identity s') where
  injective := fun _ _ => Row.resource.inj
  before := fun _ => rfl
  after := fun _ => by rw [← h]; rfl
  others := by
    intro row hrow
    cases row with
    | user id => rfl
    | subscription key => exact congrArg (versionsOf Subscription.key Subscription.version · key) hsubscriptions
    | resource id => exact absurd rfl (hrow id)

/-- What a write of a worker does to the versions. -/
theorem replays_resource {w : ResourceWrite} (identity : Identity.Store)
    (h : Inventory.writeResource tenantId w s = .ok s') :
    Replays (resourceOp w).toList (versions identity s) (versions identity s') ∧
      s'.subscriptions = s.subscriptions := by
  cases w with
  | group w =>
    have hresources := (Inventory.flush_rows h).2
    have hsubscriptions : s'.subscriptions = s.subscriptions := Inventory.flush_subscriptions h
    have hsame : versions identity s' = versions identity s := by
      funext row
      cases row with
      | resource id => simp only [versions, hresources]
      | subscription key => simp only [versions, hsubscriptions]
      | user => rfl
    rw [hsame]
    exact ⟨.nil _, hsubscriptions⟩
  | insert subscriptionId draw v =>
    obtain ⟨hrows, hsubscriptions, -⟩ := Inventory.insertResource_rows h
    have hwrites : Writes (.insert (.resource draw.id)) (versions identity s) (versions identity s') :=
      (onlyResources s identity hrows hsubscriptions).insert (hrows ▸ s'.resourceIds) rfl
    exact ⟨.cons hwrites (.nil _), hsubscriptions⟩
  | update v loaded =>
    cases h
    have hkeeps := Inventory.keeps_rewritten v loaded
    have hrows : (s.updateResources (Inventory.rewritten v loaded) hkeeps).resources =
        s.resources.map (Inventory.rewritten v loaded) := rfl
    refine ⟨.cons ((onlyResources s identity hrows rfl).update hkeeps.id ?_) (.nil _), rfl⟩
    intro q _
    unfold Inventory.rewritten
    split_ifs <;> rfl

theorem replays_resources {writes : List ResourceWrite} (identity : Identity.Store)
    (h : Inventory.writeAllResources tenantId writes s = .ok s') :
    Replays (writes.filterMap resourceOp) (versions identity s) (versions identity s') ∧
      s'.subscriptions = s.subscriptions := by
  induction writes generalizing s with
  | nil =>
    cases h
    exact ⟨.nil _, rfl⟩
  | cons w rest ih =>
    obtain ⟨u, hu, hrest⟩ := Fallible.bind_eq_ok.mp h
    obtain ⟨hw, hsubscriptions⟩ := replays_resource identity hu
    obtain ⟨hreplays, hsubscriptions'⟩ := ih hrest
    have hops : (w :: rest).filterMap resourceOp = (resourceOp w).toList ++ rest.filterMap resourceOp := by
      rw [List.filterMap_cons]
      cases resourceOp w <;> rfl
    rw [hops]
    exact ⟨hw.append hreplays, hsubscriptions'.trans hsubscriptions⟩

end Resources

/-! ### What a worker holds -/

def resourceOps (t : Storing) : List (Op Row) := t.writes.filterMap resourceOp

/-- Where the storing transaction of a worker is, next to tables with these versions. -/
structure Held (v : Row → Option Nat) (t : Storing) : Prop where
  chained : Chained (resourceOps t)
  /-- An object in memory was written by the transaction, and is as it was written last. -/
  objects : ∀ r ∈ t.held, ∃ last, (own (.resource r.id) (resourceOps t)).getLast? = some last ∧ last.leaves = r.version
  /-- What the transaction did not add was there. -/
  found : ∀ row seen, (own row (resourceOps t)).head? = some (.update row seen) → (v row).isSome

theorem held_begun (v : Row → Option Nat) (calls : List Call) : Held v (.begun calls) where
  chained := chained_nil
  objects := fun _ hr => nomatch hr
  found := fun _ _ hhead => nomatch hhead

theorem Held.mono {v v' : Row → Option Nat} {t : Storing} (h : Held v t)
    (hmore : ∀ row, (v row).isSome → (v' row).isSome) : Held v' t :=
  ⟨h.chained, h.objects, fun row seen hhead => hmore row (h.found row seen hhead)⟩

/-- The transaction has written a resource, and holds an object of it. -/
theorem Held.write {v : Row → Option Nat} {t : Storing} (h : Held v t) {o : Op Row} {r : Resource} {call : Call}
    (rest : List Call) {writes : List ResourceWrite} (pending : Option Inventory.GroupWrite)
    (hwrites : writes.filterMap resourceOp = resourceOps t ++ [o])
    (hkey : o.key = .resource r.id) (hversion : o.leaves = r.version)
    (hfollows : ∀ last, (own o.key (resourceOps t)).getLast? = some last → Follows last o)
    (hfound : ∀ seen, own o.key (resourceOps t) = [] → o = .update o.key seen → (v o.key).isSome) :
    Held v ⟨rest, writes, (r :: t.held.filter fun q => q.id ≠ r.id).filter call.keep, pending⟩ := by
  have hops : ∀ held, resourceOps ⟨rest, writes, held, pending⟩ = resourceOps t ++ [o] := fun _ => hwrites
  refine ⟨?_, ?_, ?_⟩
  · rw [hops]
    exact h.chained.snoc hfollows
  · intro q hq
    rw [hops, own_snoc]
    rcases List.mem_cons.mp (List.mem_of_mem_filter hq) with rfl | hq
    · rw [if_pos hkey]
      exact ⟨o, List.getLast?_concat .., hversion⟩
    · obtain ⟨hq, hne⟩ := List.mem_filter.mp hq
      have hother : o.key ≠ .resource q.id := by
        rw [hkey]
        exact fun heq => of_decide_eq_true hne (Row.resource.inj heq).symm
      rw [if_neg hother]
      exact h.objects q hq
  · intro row seen hhead
    rw [hops, own_snoc] at hhead
    split_ifs at hhead with hrow
    · subst hrow
      cases hown : own o.key (resourceOps t) with
      | nil =>
        rw [hown] at hhead
        exact hfound seen hown (Option.some.inj hhead)
      | cons first others =>
        rw [hown] at hhead
        exact h.found _ seen (by rw [hown]; exact hhead)
    · exact h.found row seen hhead

theorem filterMap_flushed (pending : Option Inventory.GroupWrite) :
    (Inventory.flushed pending).filterMap resourceOp = [] := by
  cases pending <;> rfl

/-- The object of a row is the row, or what the transaction last wrote of it. -/
theorem Held.object {v : Row → Option Nat} {t : Storing} (h : Held v t) (view : Inventory.Store) {row : Resource}
    (hrow : ((⟨v, []⟩ : Tally Row).replay (resourceOps t)).versions (.resource row.id) = some row.version) :
    (Batch.object ⟨view, t.held, t.pending⟩ row).id = row.id ∧
      ∀ last, (own (.resource row.id) (resourceOps t)).getLast? = some last →
        (Batch.object ⟨view, t.held, t.pending⟩ row).version = last.leaves := by
  unfold Batch.object
  cases hheld : t.held.find? fun q => q.id = row.id with
  | none => exact ⟨rfl, fun last hlast => replay_last hlast hrow⟩
  | some q =>
    have hqid : q.id = row.id := by simpa using List.find?_some hheld
    refine ⟨hqid, fun last hlast => ?_⟩
    obtain ⟨last', hlast', hleaves⟩ := h.objects q (List.mem_of_find?_eq_some hheld)
    rw [hqid, hlast] at hlast'
    cases hlast'
    exact hleaves.symm

/-- The next call of a worker. -/
theorem Held.next {host : Inventory.Host} {session : Inventory.Session} {tenantId : Uuid} {identity : Identity.Store}
    {s : Inventory.Store} {t t' : Storing} (h : Held (versions identity s) t)
    (ht : t.next host session tenantId s = some t') : Held (versions identity s) t' := by
  obtain ⟨call, rest, view, r, changed, b, -, hview, hupserts, rfl⟩ := Inventory.next_eq_some ht
  -- The versions the transaction sees are those of the tables and its own.
  have htally : ((⟨versions identity s, []⟩ : Tally Row).replay (resourceOps t)).versions = versions identity view :=
    (replays_resources identity hview).1.replay.1
  have hops : ∀ w o, resourceOp w = some o →
      (t.writes ++ Inventory.flushed t.pending ++ [w]).filterMap resourceOp = resourceOps t ++ [o] := by
    intro w o hw
    simp [filterMap_flushed, hw, resourceOps]
  cases hupserts with
  | @inserted u _ _ hid htaken hfind hflush hr hsees hinsert =>
    subst hr
    simp only [Batch.resourceWrite, hfind]
    have hmissing : versions identity view (.resource call.draw.id) = none := by
      have hunique := (Inventory.insertResource_rows hinsert).1 ▸ (Inventory.Store.resourceIds _)
      rw [(Inventory.flush_rows hflush).2] at hunique
      exact versionsOf_eq_none.mpr (unique_snoc.mp hunique).1
    have hown : own (.resource call.draw.id) (resourceOps t) = [] :=
      own_of_missing (h.found _) (htally ▸ hmissing)
    refine h.write rest _ (hops _ _ rfl) rfl rfl ?_ ?_
    · intro last hlast
      change (own (.resource call.draw.id) (resourceOps t)).getLast? = some last at hlast
      rw [hown] at hlast
      cases hlast
    · intro seen _ hupdate
      cases hupdate
  | @updated u _ _ row hid htaken hfind hflush hr hu =>
    subst hr
    simp only [Batch.resourceWrite, hfind]
    have hrow : row ∈ view.resources := (Inventory.findResource_some hfind).1
    have hversion : versions identity view (.resource row.id) = some row.version :=
      congrArg (Option.map Resource.version) ((entries_eq_some view.resourceIds).mpr ⟨hrow, rfl⟩)
    obtain ⟨hobjectId, hobjectVersion⟩ := h.object view (htally ▸ hversion)
    refine h.write rest _ (hops _ _ rfl) rfl rfl ?_ ?_
    · intro last hlast
      change (own (.resource (Batch.object ⟨view, t.held, t.pending⟩ row).id) (resourceOps t)).getLast? = some last
        at hlast
      rw [hobjectId] at hlast
      have hkey : last.key = .resource row.id := key_of_mem_own (List.mem_of_getLast? hlast)
      unfold Follows
      rw [hkey, hobjectId, hobjectVersion last hlast]
    · intro seen hown _
      change own (.resource (Batch.object ⟨view, t.held, t.pending⟩ row).id) (resourceOps t) = [] at hown
      change (versions identity s (.resource (Batch.object ⟨view, t.held, t.pending⟩ row).id)).isSome
      rw [hobjectId] at hown ⊢
      have hsame := (replay_own ⟨versions identity s, []⟩ (resourceOps t) (.resource row.id)).1
      rw [hown, htally, hversion] at hsame
      exact Option.isSome_of_eq_some hsame.symm

/-! ### All transactions -/

/-- What the transaction holds fits the tables. -/
def Sound (l : Ledger) : Txn → Prop
  | .identity t => ∀ u, synchronizedUser t = some u → NewUser u
  | .discover _ _ _ done => Discovering l.inventory done
  | .storing _ t => Held l.versions t

/-- No row is lost, and no subscription gets another key. -/
structure Grows (l l' : Ledger) : Prop where
  rows : ∀ row, (l.versions row).isSome → (l'.versions row).isSome
  subscriptions : ∀ id key, Named l.inventory id key → Named l'.inventory id key

theorem Sound.grow {l l' : Ledger} {t : Txn} (h : Sound l t) (hgrows : Grows l l') : Sound l' t := by
  cases t with
  | identity t => exact h
  | discover tenantId ids remaining done => exact ⟨h.chained, h.fits, h.sourced.mono hgrows.subscriptions⟩
  | storing tenantId t => exact Held.mono h hgrows.rows

section Protocol
variable {p : Identity.Transactions.Provider} {host : Inventory.Host} {l l' : Ledger} {t t' : Txn}

/-- A transaction synchronizes one user at most. -/
theorem chained_userOps (u : Option (Upsert User)) : Chained (u.toList.map userOp) := by
  cases u with
  | none => exact chained_nil
  | some u => exact chained_singleton (userOp u)

theorem sound_begin (n : Nat) (l : Ledger) (r : Start) : Sound l (Start.begin p n r) := by
  cases r with
  | identity r =>
    cases r with
    | callback | bearer | token => exact nofun
  | discover tenantId ids discovered => exact ⟨chained_nil, nofun, trivial⟩
  | storing tenantId calls => exact held_begun _ calls

theorem Sound.statement {n : Nat} (h : Sound l t) (hs : statement p host n l t = some t') : Sound l t' := by
  cases t with
  | identity t =>
    obtain ⟨u, hu, rfl⟩ := Option.map_eq_some_iff.mp hs
    exact newUser_statement h hu
  | discover tenantId ids remaining done =>
    cases remaining with
    | nil => cases hs
    | cons item remaining =>
      cases hs
      exact h.next tenantId _ item
  | storing tenantId t =>
    obtain ⟨u, hu, rfl⟩ := Option.map_eq_some_iff.mp hs
    exact Held.next h hu

/-- What a commit comes to: the writes of the transaction, each of a row after the other. -/
structure Committed (l : Ledger) (t : Txn) (l' : Ledger) : Prop where
  chained : Chained t.ops
  replays : Replays t.ops l.versions l'.versions
  names : ∀ id key, Named l.inventory id key → Named l'.inventory id key
  updates : l'.updates = (l.tally.replay t.ops).log

theorem committed_of_commit (hsound : Sound l t) (h : commit p l t = some l') : Committed l t l' := by
  obtain ⟨rows, hrows, rfl⟩ := Option.map_eq_some_iff.mp h
  cases t with
  | identity t =>
    obtain ⟨identity, hcommit, rfl⟩ := Option.map_eq_some_iff.mp hrows
    exact ⟨chained_userOps (synchronizedUser t), replays_identity l.inventory hsound hcommit, fun _ _ hname => hname,
      rfl⟩
  | discover tenantId ids remaining done =>
    cases remaining with
    | cons item remaining => cases hrows
    | nil =>
      obtain ⟨inventory, hwrite, rfl⟩ := Option.map_eq_some_iff.mp hrows
      obtain ⟨hreplays, hnames⟩ :=
        replays_discovered l.identity.store hsound.fits hsound.sourced (Fallible.toOption_eq_some.mp hwrite)
      exact ⟨hsound.chained, hreplays, hnames, rfl⟩
  | storing tenantId t =>
    obtain ⟨inventory, hfinish, rfl⟩ := Option.map_eq_some_iff.mp hrows
    have hwrite := Fallible.toOption_eq_some.mp hfinish
    unfold Storing.finish at hwrite
    split at hwrite
    · obtain ⟨hreplays, hsubscriptions⟩ := replays_resources l.identity.store hwrite
      rw [List.filterMap_append, filterMap_flushed, List.append_nil] at hreplays
      refine ⟨hsound.chained, hreplays, ?_, rfl⟩
      rintro id key ⟨r, hr, hname⟩
      exact ⟨r, hsubscriptions ▸ hr, hname⟩
    · cases hwrite

/-- The tally follows the commit. -/
theorem Committed.tally (h : Committed l t l') : l'.tally = l.tally.replay t.ops ∧ Admits t.ops l.tally := by
  obtain ⟨hversions, hadmits⟩ := Replays.replay (t := l.tally) h.replays
  exact ⟨Tally.ext hversions.symm h.updates, hadmits⟩

theorem Committed.grows (h : Committed l t l') : Grows l l' := by
  refine ⟨fun row hrow => ?_, h.names⟩
  have hafter : ((l.tally.replay t.ops).versions row).isSome := replay_isSome hrow
  rw [← h.tally.1] at hafter
  exact hafter

theorem keeps_sound (start : Row → Nat) :
    Keeps (protocol p host) (fun l => Begins start l.tally) (fun _ l t => Sound l t) where
  later := fun _ _ _ h => h
  begin := fun n l r _ => sound_begin n l r
  statement := fun _ _ _ _ _ _ hsound hs => hsound.statement hs
  commit := by
    intro _ l t l' hbegins hsound hc
    have hcommitted := committed_of_commit hsound hc
    obtain ⟨htally, hadmits⟩ := hcommitted.tally
    rw [htally]
    exact begins_replay hbegins hcommitted.chained hadmits
  others := fun _ _ _ _ _ _ hsound hc hother => hother.grow (committed_of_commit hsound hc).grows

/-! ### The count -/

theorem numbered_start (identity : Identity.Store) (inventory : Inventory.Store) :
    Begins (initial (.start identity inventory)) (Ledger.start identity inventory).tally ∧
      Numbered (initial (.start identity inventory)) (Ledger.start identity inventory).tally := by
  refine ⟨?_, ?_⟩
  · intro row hrow
    refine ⟨?_, rfl⟩
    have hnone : (Ledger.start identity inventory).versions row = none := hrow
    rw [initial, hnone]
    rfl
  · intro row v hrow
    have hsome : (Ledger.start identity inventory).versions row = some v := hrow
    refine ⟨0, ?_, rfl⟩
    rw [initial, hsome]
    rfl

/-- **Versions count updates**: from any tables, all along a run, no two updates of a row that
commit leave one version and the version is the initial one and as many as they are, exactly
if no commit of the run is overtaken. -/
theorem versions_count_iff (p : Identity.Transactions.Provider) (host : Inventory.Host) (identity : Identity.Store)
    (inventory : Inventory.Store) (actions : List (ReadCommitted.Action Start Unit)) :
    Always (protocol p host).step (fun s => Counted (initial (.start identity inventory)) s.committed.tally) actions
        (.idle (.start identity inventory)) ↔
      EveryStep (protocol p host).step Unovertaken actions (.idle (.start identity inventory)) := by
  obtain ⟨hbegins, hnumbered⟩ := numbered_start identity inventory
  refine always_iff_everyStep_of_stronger
    (I := Holds (fun l => Begins (initial (.start identity inventory)) l.tally) fun _ l t => Sound l t)
    (S := fun s => Numbered (initial (.start identity inventory)) s.committed.tally)
    (holds_idle hbegins) hnumbered (fun _ h => h.counted) ?_ ?_ ?_
  · exact fun _ _ _ hI hs => holds_step (keeps_sound _) hI hs
  · intro a s t hI hS hs hP
    cases Protocol.step_cases hs with
    | begin | statement | abort => trivial
    | @commit _ i txn _ hi hc =>
      intro u hu
      obtain rfl : txn = u := Option.some.inj (hi.symm.trans hu)
      have hcommitted := committed_of_commit (hI.running i txn hi) hc
      obtain ⟨htally, hadmits⟩ := hcommitted.tally
      refine Counted.current hS hcommitted.chained hadmits ?_
      rw [← htally]
      exact hP
  · intro a s t hI hS hs hC
    cases Protocol.step_cases hs with
    | begin | statement | abort => exact hS
    | @commit _ i txn l' hi hc =>
      have hcommitted := committed_of_commit (hI.running i txn hi) hc
      obtain ⟨htally, hadmits⟩ := hcommitted.tally
      change Numbered _ l'.tally
      rw [htally]
      exact numbered_replay hI.committed hS hcommitted.chained hadmits (hC txn hi)

end Protocol

/-! ### Two requests of one user -/

/-- A user signs in, and then asks twice; both requests have read the user when the first
of them commits. -/
def twoRequests : List (ReadCommitted.Action Start Unit) :=
  let login := Identity.Transactions.sampleLogin 6
  [.begin 0 (.identity (.callback login "common"))] ++ List.replicate 7 (.statement 0 ()) ++ [.commit 0,
    .begin 1 (.identity (.bearer login)), .begin 2 (.identity (.bearer login)), .statement 1 (), .statement 2 (),
    .statement 1 (), .statement 2 (), .commit 1, .commit 2]

/-- Both leave version 2. -/
theorem version_left_twice : ¬ Always (protocol Identity.Transactions.sampleProvider Inventory.sampleHost).step
    (fun s => Counted (initial (.start .empty .empty)) s.committed.tally) twoRequests
    (.idle (.start .empty .empty)) := by
  intro h
  have hend : (run (protocol Identity.Transactions.sampleProvider Inventory.sampleHost).step twoRequests
      (.idle (.start .empty .empty))).map (fun s => (s.committed.updates, s.committed.versions (.user 62))) =
        some ([(.user 62, 2), (.user 62, 2)], some 2) := by decide +kernel
  obtain ⟨s, hrun, heq⟩ := Option.map_eq_some_iff.mp hend
  obtain ⟨hupdates, hversion⟩ := Prod.mk.inj heq
  have hdistinct := (h.last hrun).distinct (.user 62) 2 hversion
  simp [Tally.left, Ledger.tally, hupdates] at hdistinct

end Sentinel.Commands.RowVersions
