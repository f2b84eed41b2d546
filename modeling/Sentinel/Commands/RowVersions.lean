import Sentinel.Identity.Rows
import Sentinel.Inventory.Main
import Sentinel.Inventory.Storing
import Sentinel.Library.Versions

/-! The versions of rows.

`synchronize_user`, `upsert_subscription` and `upsert_resource` raise the version of a row
they find: in memory, from the version they read, and without a lock. So two transactions
that read one version both leave the next, and the second of them is lost on the count. The
versions count the updates in exactly the runs where, at each commit, the rows it updates
still have the versions the transaction read first (`versions_count_iff`). -/
namespace Sentinel.Commands.RowVersions
open Library Library.Table Library.Transition Library.ReadCommitted Library.Versions
open Identity (User)
open Identity.Transactions (Login Onboarding)
open Inventory (AzureSubscription Call Discovered ResourceWrite Resource Storing Subscription)

/-- A row with a version; a subscription is known by `uq_subscription_azure`. -/
inductive Row where
  | user (id : Uuid)
  | subscription (key : Uuid × Uuid)
  | resource (id : Uuid)
  deriving DecidableEq

structure Ledger where
  identity : Identity.Transactions.Ledger
  inventory : Inventory.Store
  /-- The log of the versions that committed updates left, each of a row. -/
  updates : List (Row × Nat)

def versions (identity : Identity.Store) (inventory : Inventory.Store) : Row → Option Nat
  | .user id => versionsOf User.id User.version identity.users id
  | .subscription key => versionsOf Subscription.key Subscription.version inventory.subscriptions key
  | .resource id => versionsOf Resource.id Resource.version inventory.resources id

def Ledger.versions (l : Ledger) : Row → Option Nat := RowVersions.versions l.identity.store l.inventory

def Ledger.tally (l : Ledger) : Tally Row := ⟨l.versions, l.updates⟩

/-- The version a row starts with; a row that is added later starts with 1. -/
def initial (l : Ledger) (row : Row) : Nat := (l.versions row).getD 1

/-- Before any update is logged. -/
def Ledger.start (identity : Identity.Store) (inventory : Inventory.Store) : Ledger :=
  ⟨⟨identity, [], []⟩, inventory, []⟩

inductive Start where
  /-- A login, a request with a bearer token, or one for a delegated token. -/
  | identity (r : Identity.Transactions.Start)
  /-- A discovery request, or the transaction of a worker that registers subscriptions. -/
  | discover (tenantId : Uuid) (ids : Nat → Uuid) (discovered : List AzureSubscription)
  /-- The transaction of a worker that stores resources. -/
  | storing (tenantId : Uuid) (calls : List Call)

inductive Txn where
  | identity (t : Identity.Transactions.Txn)
  | discover (tenantId : Uuid) (ids : Nat → Uuid) (remaining : List AzureSubscription) (done : List Discovered)
  | storing (tenantId : Uuid) (t : Storing)

/-! ### What a transaction does to the rows, and the versions it saw -/

/-- The user a callback has read. -/
def onboardedUser : Onboarding → Option (Upsert User)
  | .begun | .tenant _ | .counted _ => none
  | .user c => some c.user
  | .role c => some c.user
  | .permissions c => some c.user
  | .assigned c => some c.user
  | .connected c => some c.user

/-- The user a transaction of the identity service synchronizes. -/
def synchronizedUser : Identity.Transactions.Txn → Option (Upsert User)
  | .callback _ _ _ stage => onboardedUser stage
  | .bearer _ (.user u) => some u
  | .bearer _ _ => none
  | .token _ _ _ _ _ => none

def userOp : Upsert User → Op Row
  | .fresh u => .insert (.user u.id)
  | .found u => .update (.user u.id) u.version

def subscriptionOp (d : Discovered) : Op Row :=
  match d.source with
  | .fresh _ => .insert (.subscription d.row.key)
  | .found r => .update (.subscription d.row.key) r.version

def resourceOp : ResourceWrite → Option (Op Row)
  | .group _ => none
  | .insert _ draw _ => some (.insert (.resource draw.id))
  | .update _ loaded => some (.update (.resource loaded.id) loaded.version)

def Txn.ops : Txn → List (Op Row)
  | .identity t => (synchronizedUser t).toList.map userOp
  | .discover _ _ _ done => done.map subscriptionOp
  | .storing _ t => t.writes.filterMap resourceOp

section Protocol
variable (p : Identity.Transactions.Provider) (host : Inventory.Host)

def Start.begin (n : Nat) : Start → Txn
  | .identity r => .identity ((Identity.Transactions.protocol p).begin n r)
  | .discover tenantId ids discovered => .discover tenantId ids discovered []
  | .storing tenantId calls => .storing tenantId (.begun calls)

def statement (n : Nat) (l : Ledger) : Txn → Option Txn
  | .identity t => ((Identity.Transactions.protocol p).statement n () l.identity t).map .identity
  | .discover tenantId ids (item :: remaining) done =>
    some (.discover tenantId ids remaining
      (done ++ [Inventory.discoverNext tenantId (ids done.length) item done l.inventory]))
  | .discover _ _ [] _ => none
  | .storing tenantId t =>
    (t.next host (Inventory.workerSession host) tenantId l.inventory).map (.storing tenantId)

/-- What a commit leaves of the tables. -/
def commitRows (l : Ledger) : Txn → Option Ledger
  | .identity t =>
    ((Identity.Transactions.protocol p).commit l.identity t).map fun identity => {l with identity := identity}
  | .discover _ _ [] done =>
    (Inventory.writeAllDiscovered done l.inventory).toOption.map fun inventory => {l with inventory := inventory}
  | .discover _ _ (_ :: _) _ => none
  | .storing tenantId t =>
    (t.finish tenantId l.inventory).toOption.map fun inventory => {l with inventory := inventory}

/-- The commit, with what its updates left in the log. -/
def commit (l : Ledger) (t : Txn) : Option Ledger :=
  (commitRows p l t).map fun l' => {l' with updates := (l.tally.replay t.ops).log}

def protocol : ReadCommitted.Protocol Ledger Txn Start Unit where
  begin := Start.begin p
  statement := fun n _ => statement p host n
  commit := commit p

end Protocol

/-- At a commit, the rows the transaction updates still have the versions it read first. -/
def Unovertaken (s : System Ledger Txn) (a : ReadCommitted.Action Start Unit) (_ : System Ledger Txn) : Prop :=
  match a with
  | .commit i => ∀ t, s.running i = some t → Current s.committed.tally t.ops
  | _ => True

/-! ### Users -/

/-- A user that is to be added has version 1. -/
def NewUser (u : Upsert User) : Prop := u.isFresh → u.row.version = 1

theorem newUser_readUser (login : Login) (tenantId : Uuid) (s : Identity.Store) :
    NewUser (Identity.Transactions.readUser login tenantId s) := by
  unfold Identity.Transactions.readUser
  cases Identity.getUser tenantId login.principal.entraObjectId s with
  | none => exact fun _ => rfl
  | some u => exact nofun

theorem newUser_onboard {login : Login} {tokenAuthority encrypted : String} {s : Identity.Store}
    {stage stage' : Onboarding} (h : ∀ u, onboardedUser stage = some u → NewUser u)
    (hstage : Identity.Transactions.onboard login tokenAuthority encrypted s stage = some stage') :
    ∀ u, onboardedUser stage' = some u → NewUser u := by
  cases stage with
  | begun | tenant =>
    cases hstage
    exact nofun
  | counted c =>
    cases hstage
    intro u hu
    cases hu
    exact newUser_readUser login c.tenant.row.id s
  | user c | role c | permissions c | assigned c =>
    cases hstage
    exact h
  | connected c => cases hstage

theorem newUser_statement {p : Identity.Transactions.Provider} {n : Nat} {l : Identity.Transactions.Ledger}
    {t t' : Identity.Transactions.Txn} (h : ∀ u, synchronizedUser t = some u → NewUser u)
    (hs : (Identity.Transactions.protocol p).statement n () l t = some t') :
    ∀ u, synchronizedUser t' = some u → NewUser u := by
  cases t with
  | callback login tokenAuthority issued stage =>
    obtain ⟨stage', hstage, rfl⟩ := Option.map_eq_some_iff.mp hs
    exact newUser_onboard h hstage
  | bearer login stage =>
    obtain ⟨stage', hstage, rfl⟩ := Option.map_eq_some_iff.mp hs
    intro u hu
    unfold Identity.Transactions.resolve at hstage
    split at hstage
    · split at hstage
      · cases hstage
      · split_ifs at hstage
        cases hstage
        cases hu
    · dsimp only at hstage
      split_ifs at hstage
      cases hstage
      cases hu
      exact newUser_readUser _ _ _
    · cases hstage
  | token =>
    obtain ⟨stage', -, rfl⟩ := Option.map_eq_some_iff.mp hs
    exact nofun

/-- Only the users have changed. -/
theorem onlyUsers {s s' : Identity.Store} (inventory : Inventory.Store) {users : List User} (h : s'.users = users) :
    OnlyTable Row.user User.id User.version s.users users (versions s inventory) (versions s' inventory) where
  injective := fun _ _ => Row.user.inj
  before := fun _ => rfl
  after := fun _ => by rw [← h]; rfl
  others := by
    intro row hrow
    cases row with
    | user id => exact absurd rfl (hrow id)
    | subscription | resource => rfl

/-- What synchronizing a user does to the versions. -/
theorem writes_user {login : Login} {u : Upsert User} {s s' : Identity.Store} (inventory : Inventory.Store)
    (hnew : NewUser u) (h : s'.users = u.write (Identity.Transactions.synced login u.row) s.users) :
    Writes (userOp u) (versions s inventory) (versions s' inventory) := by
  cases u with
  | fresh u =>
    have husers : s'.users = s.users ++ [u] := h
    exact (onlyUsers inventory husers).insert (husers ▸ s'.userIds) (hnew rfl)
  | found u =>
    have husers : s'.users = s.users.map (Identity.Transactions.synced login u) := h
    refine (onlyUsers inventory husers).update (Identity.Transactions.synced_id login u) ?_
    intro q _
    unfold Identity.Transactions.synced
    split_ifs <;> rfl

theorem replays_identity {p : Identity.Transactions.Provider} {l l' : Identity.Transactions.Ledger}
    {t : Identity.Transactions.Txn} (inventory : Inventory.Store)
    (hnew : ∀ u, synchronizedUser t = some u → NewUser u)
    (h : (Identity.Transactions.protocol p).commit l t = some l') :
    Replays ((synchronizedUser t).toList.map userOp) (versions l.store inventory) (versions l'.store inventory) := by
  cases Identity.Transactions.commits_of_commit h with
  | @callback login _ _ c s hw =>
    have husers := congrArg Identity.Rows.users (Identity.Transactions.writeOnboarding_rows hw)
    exact .cons (writes_user inventory (hnew c.user rfl) husers) (.nil _)
  | @bearer login u s hw =>
    have husers := congrArg Identity.Rows.users (Identity.Transactions.writeUser_rows hw)
    exact .cons (writes_user inventory (hnew u rfl) husers) (.nil _)
  | @token _ _ _ _ _ _ s hw =>
    have husers : s.users = l.store.users :=
      congrArg Identity.Rows.users (Identity.Transactions.writeConnection_rows hw)
    have hsame : versions s inventory = versions l.store inventory := by
      funext row
      cases row with
      | user id => simp only [versions, husers]
      | subscription | resource => rfl
    change Replays [] _ (versions s inventory)
    rw [hsame]
    exact .nil _
  | unrotated => exact .nil _

/-! ### Subscriptions -/

/-- The subscription with this id has this key. -/
def Named (s : Inventory.Store) (id : Uuid) (key : Uuid × Uuid) : Prop :=
  ∃ r ∈ s.subscriptions, r.id = id ∧ r.key = key

/-- What the session holds of a subscription is the row that was looked up, with its new version. -/
structure Fits (d : Discovered) : Prop where
  id : d.row.id = d.source.row.id
  key : d.row.key = d.source.row.key
  version : d.row.version = (subscriptionOp d).leaves
  new : d.source.isFresh → d.source.row.version = 1

/-- Each row that was found is one of those named, or one written before it. -/
def Sourced : List Discovered → (Uuid → Uuid × Uuid → Prop) → Prop
  | [], _ => True
  | d :: rest, named => (d.source.isFresh = false → named d.source.row.id d.source.row.key) ∧
      Sourced rest fun id key => named id key ∨ id = d.row.id ∧ key = d.row.key

structure Discovering (s : Inventory.Store) (done : List Discovered) : Prop where
  chained : Chained (done.map subscriptionOp)
  fits : ∀ d ∈ done, Fits d
  sourced : Sourced done (Named s)

theorem Sourced.mono {done : List Discovered} {named named' : Uuid → Uuid × Uuid → Prop} (h : Sourced done named)
    (hmore : ∀ id key, named id key → named' id key) : Sourced done named' := by
  induction done generalizing named named' with
  | nil => trivial
  | cons d rest ih => exact ⟨fun hfound => hmore _ _ (h.1 hfound), ih h.2 fun id key => Or.imp_left (hmore id key)⟩

theorem Sourced.snoc {done : List Discovered} {d : Discovered} {named : Uuid → Uuid × Uuid → Prop}
    (h : Sourced done named) (hd : d.source.isFresh = false → named d.source.row.id d.source.row.key ∨
      ∃ e ∈ done, d.source.row.id = e.row.id ∧ d.source.row.key = e.row.key) : Sourced (done ++ [d]) named := by
  induction done generalizing named with
  | nil =>
    refine ⟨fun hfound => (hd hfound).resolve_right ?_, trivial⟩
    rintro ⟨e, he, -⟩
    cases he
  | cons e rest ih =>
    refine ⟨h.1, ih h.2 fun hfound => ?_⟩
    rcases hd hfound with hnamed | ⟨f, hf, hsame⟩
    · exact .inl (.inl hnamed)
    · rcases List.mem_cons.mp hf with rfl | hf
      · exact .inl (.inr hsame)
      · exact .inr ⟨f, hf, hsame⟩

theorem subscriptionOp_key (d : Discovered) : (subscriptionOp d).key = .subscription d.row.key := by
  unfold subscriptionOp
  split <;> rfl

theorem own_subscription (key : Uuid × Uuid) (done : List Discovered) :
    own (.subscription key) (done.map subscriptionOp) = (done.filter fun d => d.row.key = key).map subscriptionOp := by
  unfold own
  rw [List.filter_map]
  congr 2
  funext d
  simp [subscriptionOp_key]

/-- A lookup finds what the transaction last did to the subscription, and else the table's row. -/
theorem lookup_cases (tenantId azureSubscriptionId : Uuid) (done : List Discovered) (s : Inventory.Store) :
    (∃ d ∈ done, d.row.key = (tenantId, azureSubscriptionId) ∧
        Inventory.lookupSubscription tenantId azureSubscriptionId done s = some d.row ∧
        (own (.subscription (tenantId, azureSubscriptionId)) (done.map subscriptionOp)).getLast? =
          some (subscriptionOp d)) ∨
      Inventory.lookupSubscription tenantId azureSubscriptionId done s =
          Inventory.findSubscription tenantId azureSubscriptionId s ∧
        own (.subscription (tenantId, azureSubscriptionId)) (done.map subscriptionOp) = [] := by
  unfold Inventory.lookupSubscription
  rw [own_subscription, List.getLast?_map, ← List.head?_reverse, ← List.filter_reverse, List.head?_filter]
  cases hfind : done.reverse.find? fun d => d.row.key = (tenantId, azureSubscriptionId) with
  | none =>
    refine .inr ⟨rfl, ?_⟩
    rw [List.filter_eq_nil_iff.mpr fun d hd => List.find?_eq_none.mp hfind d (List.mem_reverse.mpr hd), List.map_nil]
  | some d =>
    have hkey : d.row.key = (tenantId, azureSubscriptionId) := by simpa using List.find?_some hfind
    exact .inl ⟨d, List.mem_reverse.mp (List.mem_of_find?_eq_some hfind), hkey, rfl, rfl⟩

/-- What the next subscription of a discovery is. -/
theorem Discovering.fits_next {s : Inventory.Store} {done : List Discovered} (h : Discovering s done)
    {tenantId id : Uuid} {item : AzureSubscription} {d : Discovered}
    (hd : Inventory.discoverNext tenantId id item done s = d) :
    Fits d ∧
      (∀ last, (own (.subscription d.row.key) (done.map subscriptionOp)).getLast? = some last →
        Follows last (subscriptionOp d)) ∧
      (d.source.isFresh = false → Named s d.source.row.id d.source.row.key ∨
        ∃ e ∈ done, d.source.row.id = e.row.id ∧ d.source.row.key = e.row.key) := by
  subst hd
  unfold Inventory.discoverNext
  rcases lookup_cases tenantId item.subscriptionId done s with ⟨e, he, hkey, hlookup, hlast⟩ | ⟨hlookup, hown⟩
  · rw [hlookup]
    refine ⟨⟨rfl, rfl, rfl, nofun⟩, ?_, fun _ => .inr ⟨e, he, rfl, rfl⟩⟩
    intro last hlast'
    dsimp only at hlast'
    obtain rfl := Option.some.inj (hlast.symm.trans (hkey ▸ hlast'))
    unfold Follows
    rw [subscriptionOp_key, ← (h.fits e he).version]
    rfl
  · rw [hlookup]
    cases hfind : Inventory.findSubscription tenantId item.subscriptionId s with
    | none =>
      refine ⟨⟨rfl, rfl, rfl, fun _ => rfl⟩, ?_, nofun⟩
      intro last hlast
      cases (congrArg List.getLast? hown).symm.trans hlast
    | some r =>
      have hkey : r.key = (tenantId, item.subscriptionId) := by simpa using List.find?_some hfind
      refine ⟨⟨rfl, rfl, rfl, nofun⟩, ?_, fun _ => .inl ⟨r, List.mem_of_find?_eq_some hfind, rfl, rfl⟩⟩
      intro last hlast
      rw [← hkey] at hown
      cases (congrArg List.getLast? hown).symm.trans hlast

/-- The next subscription of a discovery. -/
theorem Discovering.next {s : Inventory.Store} {done : List Discovered} (h : Discovering s done) (tenantId id : Uuid)
    (item : AzureSubscription) : Discovering s (done ++ [Inventory.discoverNext tenantId id item done s]) := by
  obtain ⟨hfits, hfollows, hsource⟩ := h.fits_next (rfl : Inventory.discoverNext tenantId id item done s = _)
  refine ⟨?_, ?_, h.sourced.snoc hsource⟩
  · rw [List.map_append]
    refine h.chained.snoc fun last hlast => hfollows last ?_
    rwa [subscriptionOp_key] at hlast
  · intro d hd
    rcases List.mem_append.mp hd with hd | hd
    · exact h.fits d hd
    · obtain rfl := List.mem_singleton.mp hd
      exact hfits

/-- Only the subscriptions have changed. -/
theorem onlySubscriptions (s : Inventory.Store) {s' : Inventory.Store} (identity : Identity.Store)
    {subscriptions : List Subscription} (h : s'.subscriptions = subscriptions)
    (hresources : s'.resources = s.resources) :
    OnlyTable Row.subscription Subscription.key Subscription.version s.subscriptions subscriptions
      (versions identity s) (versions identity s') where
  injective := fun _ _ => Row.subscription.inj
  before := fun _ => rfl
  after := fun _ => by rw [← h]; rfl
  others := by
    intro row hrow
    cases row with
    | user id => rfl
    | subscription key => exact absurd rfl (hrow key)
    | resource id => exact congrArg (versionsOf Resource.id Resource.version · id) hresources

/-- What a write to a subscription does to the versions, and to the keys. -/
theorem writes_subscription {d : Discovered} {s s' : Inventory.Store} (identity : Identity.Store) (hfits : Fits d)
    (hnamed : d.source.isFresh = false → Named s d.source.row.id d.source.row.key)
    (h : Inventory.writeDiscovered d s = .ok s') :
    Writes (subscriptionOp d) (versions identity s) (versions identity s') ∧
      ∀ id key, Named s id key ∨ id = d.row.id ∧ key = d.row.key → Named s' id key := by
  obtain ⟨source, row⟩ := d
  have hkey : row.key = source.row.key := hfits.key
  have hid : row.id = source.row.id := hfits.id
  unfold Inventory.writeDiscovered at h
  split_ifs at h
  cases source with
  | fresh r =>
    obtain ⟨hrows, -, hresources, -⟩ := Inventory.insertSubscription_rows h
    have hwrites : Writes (.insert (.subscription r.key)) (versions identity s) (versions identity s') :=
      (onlySubscriptions s identity hrows hresources).insert (hrows ▸ s'.subscriptionKeys) (hfits.new rfl)
    have hop : subscriptionOp ⟨.fresh r, row⟩ = .insert (.subscription r.key) :=
      congrArg (Op.insert ∘ Row.subscription) hkey
    rw [hop]
    refine ⟨hwrites, ?_⟩
    rintro id key (⟨q, hq, hname⟩ | ⟨rfl, rfl⟩)
    · exact ⟨q, hrows ▸ List.mem_append_left _ hq, hname⟩
    · exact ⟨r, hrows ▸ List.mem_append_right _ (List.mem_singleton_self r), hid.symm, hkey.symm⟩
  | found r =>
    cases h
    obtain ⟨q₀, hq₀, hq₀id, hq₀key⟩ := hnamed rfl
    have hsame := Inventory.keeps_overwritten r row
    have hrow : row.version = r.version + 1 := hfits.version
    -- The update goes by the id, and the row with it is the one with the key.
    have hversion : ∀ q ∈ s.subscriptions, (Inventory.overwritten r row q).version =
        if q.key = row.key then r.version + 1 else q.version := by
      intro q hq
      unfold Inventory.overwritten
      split_ifs with hqid hqkey hqkey
      · exact hrow
      · obtain rfl := s.subscriptionIds.eq hq hq₀ (hqid.trans hq₀id.symm)
        exact absurd (hq₀key.trans hkey.symm) hqkey
      · obtain rfl := s.subscriptionKeys.eq hq hq₀ ((hqkey.trans hkey).trans hq₀key.symm)
        exact absurd hq₀id hqid
      · rfl
    have hkept : ∀ id key, Named s id key →
        Named (s.updateSubscriptions (Inventory.overwritten r row) hsame) id key := by
      rintro id key ⟨q, hq, hqid, hqkey⟩
      exact ⟨_, List.mem_map_of_mem hq, (hsame.id q).trans hqid, (hsame.key q).trans hqkey⟩
    have hrows : (s.updateSubscriptions (Inventory.overwritten r row) hsame).subscriptions =
        s.subscriptions.map (Inventory.overwritten r row) := rfl
    refine ⟨(onlySubscriptions s identity hrows rfl).update hsame.key hversion, ?_⟩
    rintro id key (hname | ⟨rfl, rfl⟩)
    · exact hkept id key hname
    · exact hkept _ _ ⟨q₀, hq₀, hq₀id.trans hid.symm, hq₀key.trans hkey.symm⟩

theorem replays_discovered {done : List Discovered} {s s' : Inventory.Store} (identity : Identity.Store)
    (hfits : ∀ d ∈ done, Fits d) (hsourced : Sourced done (Named s))
    (h : Inventory.writeAllDiscovered done s = .ok s') :
    Replays (done.map subscriptionOp) (versions identity s) (versions identity s') ∧
      ∀ id key, Named s id key → Named s' id key := by
  induction done generalizing s with
  | nil =>
    cases h
    exact ⟨.nil _, fun _ _ hname => hname⟩
  | cons d rest ih =>
    obtain ⟨u, hu, hrest⟩ := Fallible.bind_eq_ok.mp h
    obtain ⟨hwrites, hnames⟩ := writes_subscription identity (hfits d (List.mem_cons_self ..)) hsourced.1 hu
    obtain ⟨hreplays, hnames'⟩ :=
      ih (fun e he => hfits e (List.mem_cons_of_mem d he)) (hsourced.2.mono hnames) hrest
    exact ⟨.cons hwrites hreplays, fun id key hname => hnames' id key (hnames id key (.inl hname))⟩

end Sentinel.Commands.RowVersions
