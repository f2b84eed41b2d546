import Sentinel.Commands.SyncJobs
import Sentinel.Identity.Onboarding

/-! What a command changes, and the record it leaves with it.

A transaction writes rows of one tenant only, its actor's, and all but one of the handlers add
a record that names both. The discovery of subscriptions adds none, so a commit of one that
found something changes rows without a record (`commands_recorded`, `discovered_unrecorded`). -/
namespace Sentinel.Commands
open Library Library.Table Library.Transition Library.ReadCommitted Common
open Identity.Transactions (Login Onboarding AtConnection)

/-- The rows of a tenant. -/
structure Owned where
  tenants : List Identity.Tenant
  users : List Identity.User
  roles : List Identity.Role
  userRoles : List Identity.UserRole
  connections : List Identity.OAuthConnection
  subscriptions : List Inventory.Subscription
  groups : List Inventory.ResourceGroup
  resources : List Inventory.Resource
  jobs : List Inventory.SyncJob
  assessments : List Intelligence.ChangeAssessment
  operations : List Operations.Operation

def Database.owned (db : Database) (tenantId : Uuid) : Owned where
  tenants := ofOwner Identity.Tenant.id tenantId db.identity.tenants
  users := ofOwner Identity.User.tenantId tenantId db.identity.users
  roles := ofOwner Identity.Role.tenantId tenantId db.identity.roles
  userRoles := ofOwner Identity.UserRole.tenantId tenantId db.identity.userRoles
  connections := ofOwner Identity.OAuthConnection.tenantId tenantId db.identity.connections
  subscriptions := ofOwner Inventory.Subscription.tenantId tenantId db.inventory.subscriptions
  groups := ofOwner Inventory.ResourceGroup.tenantId tenantId db.inventory.groups
  resources := ofOwner Inventory.Resource.tenantId tenantId db.inventory.resources
  jobs := ofOwner Inventory.SyncJob.tenantId tenantId db.inventory.jobs
  assessments := ofOwner Intelligence.ChangeAssessment.tenantId tenantId db.intelligence.assessments
  operations := ofOwner Operations.Operation.tenantId tenantId db.operations.operations

/-- The actor of a transaction, once it is known. -/
def Txn.actor : Txn → Option Uuid
  | .callback _ _ _ _ _ (.connected c) => some c.user.row.id
  | .callback _ _ _ _ _ _ => none
  | .syncJob r _ _ _ _ => some r.actorId
  | .discover actor _ _ _ | .assessment actor _ _ _ | .operation actor _ _ _ _ _ => some actor.actorId

/-- A commit that changes rows of a tenant adds a record that names the tenant and the actor,
and nothing else changes a row or the outbox. -/
def Recorded (s : System Database Txn) (a : ReadCommitted.Action Start Unit) (t : System Database Txn) : Prop :=
  match a with
  | .commit i => ∀ txn, s.running i = some txn → ∀ tenantId,
    t.committed.owned tenantId ≠ s.committed.owned tenantId →
      ∃ r ∈ t.committed.outbox.records, r ∉ s.committed.outbox.records ∧ r.payload.tenantId = tenantId ∧
        txn.actor.map Uuid.str = some r.payload.actorId
  | _ => t.committed = s.committed

/-- No discovery that looked a subscription up commits. -/
def NoDiscovery (s : System Database Txn) (a : ReadCommitted.Action Start Unit) (_ : System Database Txn) : Prop :=
  match a with
  | .commit i =>
    match s.running i with
    | some (.discover _ _ _ done) => done.isEmpty
    | _ => True
  | _ => True

instance (s : System Database Txn) (a : ReadCommitted.Action Start Unit) (t : System Database Txn) :
    Decidable (NoDiscovery s a t) :=
  match a with
  | .commit i =>
    show Decidable (match s.running i with | some (.discover _ _ _ done) => done.isEmpty | _ => True) from
    match s.running i with
    | some (.discover _ _ _ done) => inferInstanceAs (Decidable (done.isEmpty = true))
    | none | some (.callback ..) | some (.syncJob ..) | some (.assessment ..) | some (.operation ..) => isTrue trivial
  | .begin .. | .statement .. | .abort _ => isTrue trivial

/-! ### What a callback has read -/

/-- The tenant has a connection with this id. -/
def KnowsConnection (s : Identity.Store) (tenantId id : Uuid) : Prop :=
  ∃ c ∈ s.connections, c.id = id ∧ c.tenantId = tenantId

/-- A connection that was read is the tenant's, and there. -/
def FitsConnection (s : Identity.Store) : Onboarding → Prop
  | .connected c => c.connection.row.tenantId = c.tenant.row.id ∧
    (c.connection.isFresh ∨ KnowsConnection s c.tenant.row.id c.connection.row.id)
  | _ => True

/-- What a callback has read fits the tables. -/
def FitsCallback (db : Database) : Txn → Prop
  | .callback _ _ _ _ _ stage => Identity.Transactions.Fits db.identity stage ∧ FitsConnection db.identity stage
  | _ => True

theorem fitsConnection_onboard {login : Login} {tokenAuthority encrypted : String} {s : Identity.Store}
    {stage stage' : Onboarding}
    (hstage : Identity.Transactions.onboard login tokenAuthority encrypted s stage = some stage') :
    FitsConnection s stage' := by
  cases stage with
  | begun | tenant | counted | user | role | permissions =>
    cases hstage
    trivial
  | assigned c =>
    cases hstage
    unfold FitsConnection
    dsimp only
    cases hfind : Identity.getOAuthConnection c.tenant.row.id c.user.row.id s with
    | none => exact ⟨rfl, .inl rfl⟩
    | some k =>
      have hkey : k.key = (c.tenant.row.id, c.user.row.id, "microsoft") := by simpa using List.find?_some hfind
      have htenant : k.tenantId = c.tenant.row.id := congrArg Prod.fst hkey
      exact ⟨htenant, .inr ⟨k, List.mem_of_find?_eq_some hfind, rfl, htenant⟩⟩
  | connected c => cases hstage

theorem FitsConnection.grow {s s' : Identity.Store} {stage : Onboarding} (h : FitsConnection s stage)
    (hgrows : ∀ tenantId id, KnowsConnection s tenantId id → KnowsConnection s' tenantId id) :
    FitsConnection s' stage := by
  cases stage with
  | connected c => exact ⟨h.1, h.2.imp_right (hgrows _ _)⟩
  | _ => trivial

/-- A callback loses no connection. -/
theorem knowsConnection_grow {login : Login} {tokenAuthority encrypted : String} {c : AtConnection}
    {s s' : Identity.Store}
    (h : Identity.Transactions.writeOnboarding login tokenAuthority encrypted c s = .ok s') {tenantId id : Uuid}
    (hknows : KnowsConnection s tenantId id) : KnowsConnection s' tenantId id := by
  obtain ⟨k, hk, hid, htenant⟩ := hknows
  have hrows : s'.connections = _ := congrArg Identity.Rows.connections (Identity.Transactions.writeOnboarding_rows h)
  unfold KnowsConnection
  rw [hrows]
  cases c.connection with
  | fresh row => exact ⟨k, List.mem_append_left _ hk, hid, htenant⟩
  | found loaded =>
    refine ⟨_, List.mem_map_of_mem hk, ?_, ?_⟩
    · rw [Identity.Transactions.reconnected_id]
      exact hid
    · have hkey := Identity.Transactions.reconnected_key login.host loaded tokenAuthority encrypted k
      exact (congrArg Prod.fst hkey).trans htenant

theorem keeps_fitsCallback (host : Inventory.Host) :
    Keeps (protocol host) (fun _ => True) (fun _ db t => FitsCallback db t) where
  later := fun _ _ _ h => h
  begin := by
    intro _ _ r _
    cases r with
    | callback => exact ⟨trivial, trivial⟩
    | _ => trivial
  statement := by
    intro _ _ db t t' _ h hs
    replace hs : statement host db t = some t' := hs
    unfold statement at hs
    split at hs
    · obtain ⟨stage, hstage, rfl⟩ := Option.map_eq_some_iff.mp hs
      exact ⟨Identity.Transactions.fits_onboard h.1 hstage, fitsConnection_onboard hstage⟩
    · cases hs
      trivial
    · cases hs
    · obtain ⟨stage, -, rfl⟩ := Option.map_eq_some_iff.mp hs
      trivial
    · cases hs
    · obtain ⟨stage, -, rfl⟩ := Option.map_eq_some_iff.mp hs
      trivial
  commit := fun _ _ _ _ _ _ _ => trivial
  others := by
    intro _ db t db' t' _ _ hc hfits
    cases t' with
    | callback login tokenAuthority encrypted correlationId e stage =>
      cases commits_of_commit hc with
      | callback hw =>
        exact ⟨hfits.1.grow (Identity.Transactions.grows_writeOnboarding hw),
          hfits.2.grow fun _ _ => knowsConnection_grow hw⟩
      | _ => exact hfits
    | _ => trivial

/-! ### What a commit changes -/

/-- A callback writes rows of its tenant only. -/
theorem owned_callback {login : Login} {tokenAuthority encrypted : String} {c : AtConnection}
    {s s' : Identity.Store} (hfits : Identity.Transactions.Fits s (.connected c))
    (hconnection : FitsConnection s (.connected c))
    (h : Identity.Transactions.writeOnboarding login tokenAuthority encrypted c s = .ok s') {tenantId : Uuid}
    (hother : c.tenant.row.id ≠ tenantId) :
    ofOwner Identity.Tenant.id tenantId s'.tenants = ofOwner Identity.Tenant.id tenantId s.tenants ∧
    ofOwner Identity.User.tenantId tenantId s'.users = ofOwner Identity.User.tenantId tenantId s.users ∧
    ofOwner Identity.Role.tenantId tenantId s'.roles = ofOwner Identity.Role.tenantId tenantId s.roles ∧
    ofOwner Identity.UserRole.tenantId tenantId s'.userRoles =
      ofOwner Identity.UserRole.tenantId tenantId s.userRoles ∧
    ofOwner Identity.OAuthConnection.tenantId tenantId s'.connections =
      ofOwner Identity.OAuthConnection.tenantId tenantId s.connections := by
  have hrows := Identity.Transactions.writeOnboarding_rows h
  have htenants : s'.tenants = _ := congrArg Identity.Rows.tenants hrows
  have husers : s'.users = _ := congrArg Identity.Rows.users hrows
  have hroles : s'.roles = _ := congrArg Identity.Rows.roles hrows
  have hgrants : s'.userRoles = _ := congrArg Identity.Rows.userRoles hrows
  have hconnections : s'.connections = _ := congrArg Identity.Rows.connections hrows
  obtain ⟨⟨⟨huserTenant, huser⟩, hroleTenant, -, -⟩, g, hgTenant, -, -, hg⟩ := hfits
  refine ⟨?_, ?_, ?_, ?_, ?_⟩
  · rw [htenants]
    refine ofOwner_write (fun _ => hother) (fun t _ => Identity.Transactions.renamed_id _ _ t) fun _ t _ ht => ?_
    exact if_neg fun hid => hother (hid.symm.trans ht)
  · rw [husers]
    refine ofOwner_write (fun _ => huserTenant ▸ hother) ?_ fun hfound u hu hutenant => ?_
    · exact fun u _ => congrArg Prod.fst (Identity.Transactions.synced_key login _ u)
    · obtain hfresh | ⟨v, hv, hvid, hvtenant⟩ := huser
      · rw [hfound] at hfresh
        cases hfresh
      · refine if_neg fun hid => hother ?_
        obtain rfl : v = u := s.userIds.eq hv hu (hvid.trans hid.symm)
        exact hvtenant.symm.trans hutenant
  · rw [hroles]
    exact ofOwner_write (fun _ => hroleTenant ▸ hother) (fun _ _ => rfl) fun _ _ _ _ => rfl
  · rw [hgrants]
    rcases hg with hsome | ⟨hnone, -⟩
    · rw [hsome]
      exact ofOwner_snoc (hgTenant ▸ hother)
    · rw [hnone]
      exact congrArg _ (List.append_nil _)
  · rw [hconnections]
    refine ofOwner_write (fun _ => hconnection.1 ▸ hother) ?_ fun hfound k hk hktenant => ?_
    · exact fun k _ => congrArg Prod.fst (Identity.Transactions.reconnected_key login.host _ _ _ k)
    · obtain hfresh | ⟨v, hv, hvid, hvtenant⟩ := hconnection.2
      · rw [hfound] at hfresh
        cases hfresh
      · refine if_neg fun hid => hother ?_
        obtain rfl : v = k := s.connectionIds.eq hv hk (hvid.trans hid.symm)
        exact hvtenant.symm.trans hktenant

/-- What transactions rely on. -/
def Standing (db : Database) (t : Txn) : Prop := (LookedUp db t ∧ KnowsJob db t) ∧ FitsCallback db t

/-- A transaction that enqueues an event of the tenant whose rows it changes. -/
theorem exists_record {outbox outbox' : Outbox} {event : AuditEvent} {e : Envelope}
    (ho : outbox.enqueue event e = some outbox') {db db' : Database} {actorId tenantId : Uuid}
    (hactor : event.actorId = actorId.str) (hsame : event.tenantId ≠ tenantId → db'.owned tenantId = db.owned tenantId)
    (hchanged : db'.owned tenantId ≠ db.owned tenantId) :
    ∃ r ∈ outbox'.records, r ∉ outbox.records ∧ r.payload.tenantId = tenantId ∧
      (some actorId).map Uuid.str = some r.payload.actorId := by
  obtain ⟨r, hr, hnew, rfl⟩ := Outbox.exists_new ho
  by_cases htenant : r.payload.tenantId = tenantId
  · exact ⟨r, hr, hnew, htenant, congrArg some hactor.symm⟩
  · exact absurd (hsame htenant) hchanged

/-- A commit that is no discovery is recorded. -/
theorem recorded_commit {db db' : Database} {t : Txn} (hstanding : Standing db t) (hc : Commits db t db')
    (hdiscovery : ∀ actor ids remaining done, t = .discover actor ids remaining done → done = []) {tenantId : Uuid}
    (hchanged : db'.owned tenantId ≠ db.owned tenantId) :
    ∃ r ∈ db'.outbox.records, r ∉ db.outbox.records ∧ r.payload.tenantId = tenantId ∧
      t.actor.map Uuid.str = some r.payload.actorId := by
  obtain ⟨⟨hlooked, hknows⟩, hfits⟩ := hstanding
  cases hc with
  | callback hw ho =>
    refine exists_record ho rfl (fun hother => ?_) hchanged
    obtain ⟨htenants, husers, hroles, hgrants, hconnections⟩ := owned_callback hfits.1 hfits.2 hw hother
    simp only [Database.owned, htenants, husers, hroles, hgrants, hconnections]
  | discover hw =>
    obtain rfl := hdiscovery _ _ _ _ rfl
    cases hw
    exact absurd rfl hchanged
  | @syncJob r id requestedAt e job inventory outbox hw ho =>
    refine exists_record ho rfl (fun hother => ?_) hchanged
    cases job with
    | found job =>
      cases hw
      rfl
    | fresh job =>
      obtain rfl : job = Inventory.newJob id requestedAt r := hknows
      unfold Inventory.writeRequested at hw
      dsimp only at hw
      split_ifs at hw
      obtain ⟨hjobs, hsubscriptions, hgroups, hresources⟩ := Inventory.insertJob_rows hw
      have hnot : ofOwner Inventory.SyncJob.tenantId tenantId inventory.jobs =
          ofOwner Inventory.SyncJob.tenantId tenantId db.inventory.jobs := by
        rw [hjobs]
        exact ofOwner_snoc hother
      simp only [Database.owned, hnot, hsubscriptions, hgroups, hresources]
  | @assessment actor request id e intelligence outbox hw ho =>
    refine exists_record ho rfl (fun hother => ?_) hchanged
    have hnot : ofOwner Intelligence.ChangeAssessment.tenantId tenantId intelligence.assessments =
        ofOwner Intelligence.ChangeAssessment.tenantId tenantId db.intelligence.assessments := by
      rw [Intelligence.insert_assessments hw]
      exact ofOwner_snoc hother
    simp only [Database.owned, hnot]
  | replayed => exact absurd rfl hchanged
  | @created actor request idempotencyKey id e o operations outbox hw ho =>
    refine exists_record ho rfl (fun hother => ?_) hchanged
    have htenant : o.stored.tenantId ≠ tenantId := by
      have hkey : o.tenantId = actor.tenantId := congrArg Prod.fst hlooked.1
      rw [Operations.Operation.stored, hkey]
      exact hother
    have hnot : ofOwner Operations.Operation.tenantId tenantId operations.operations =
        ofOwner Operations.Operation.tenantId tenantId db.operations.operations := by
      rw [Operations.insert_operations hw]
      exact ofOwner_snoc htenant
    simp only [Database.owned, Database.answer, hnot]

theorem recorded_step {host : Inventory.Host} {a : ReadCommitted.Action Start Unit} {s t : System Database Txn}
    (hstanding : ∀ i txn, s.running i = some txn → Standing s.committed txn)
    (hs : (protocol host).step a s = some t) (hdiscovery : NoDiscovery s a t) : Recorded s a t := by
  cases Protocol.step_cases hs with
  | begin | statement | abort => rfl
  | @commit _ i txn db hi hc =>
    intro other hother tenantId hchanged
    obtain rfl := Option.some.inj (hi.symm.trans hother)
    refine recorded_commit (hstanding i txn hi) (commits_of_commit hc) ?_ hchanged
    rintro actor ids remaining done rfl
    simp only [NoDiscovery, hi] at hdiscovery
    exact List.isEmpty_iff.mp hdiscovery

/-- **Commands are recorded** in every run that commits no discovery of a subscription: a
commit that changes rows of a tenant adds a record naming the tenant and the actor, and what
is not committed leaves neither a row nor a record. -/
theorem commands_recorded (host : Inventory.Host) {actions : List (ReadCommitted.Action Start Unit)}
    (h : EveryStep (protocol host).step NoDiscovery actions (.idle .empty)) :
    EveryStep (protocol host).step Recorded actions (.idle .empty) := by
  have hkeeps := ((keeps_idempotent host).and (keeps_knowsJob host)).and (keeps_fitsCallback host)
  have hstart : Holds (fun db => (Idempotent db ∧ True) ∧ True) (fun _ => Standing) (System.idle Database.empty) :=
    holds_idle ⟨⟨idempotent_empty, trivial⟩, trivial⟩
  apply EveryStep.of_guarded hstart h
  · exact fun _ _ _ hI hs _ => holds_step hkeeps hI hs
  · exact fun _ _ _ hI hs hC => recorded_step hI.running hs hC

/-! ### A discovery -/

/-- An operation is requested, twice. -/
def sampleOperation (i : Nat) : List (ReadCommitted.Action Start Unit) :=
  [.begin i (.operation ⟨1, 5, 2, 4⟩ ⟨6, "sha256:0", "azure.vm.stop", 8, ⟨[], Json.wellFormed_empty⟩, "maintenance"⟩
    "stop-tonight" (60 + i) ⟨80 + i, Datetime.utc 0, 90 + i, 0, 0⟩), .statement i (), .commit i]

theorem commands_recorded_operations : EveryStep (protocol Inventory.sampleHost).step Recorded
    (sampleOperation 0 ++ sampleOperation 1) (.idle .empty) :=
  commands_recorded Inventory.sampleHost (by decide +kernel)

/-- A discovered subscription is committed, and no record. -/
theorem discovered_unrecorded :
    ¬ EveryStep (protocol Inventory.sampleHost).step Recorded discovery (.idle .empty) := by
  intro h
  have hbefore : (run (protocol Inventory.sampleHost).step (discovery.take 2) (.idle .empty)).map
      (fun s => (s.running 2).isSome) = some true := by decide +kernel
  have hend : ((run (protocol Inventory.sampleHost).step (discovery.take 2) (.idle .empty)).bind fun s =>
      ((protocol Inventory.sampleHost).step (.commit 2) s).map fun t =>
        ((s.committed.owned 1).subscriptions.length, (t.committed.owned 1).subscriptions.length,
          t.committed.outbox.records.length)) = some (0, 1, 0) := by decide +kernel
  obtain ⟨s, hrun, hrunning⟩ := Option.map_eq_some_iff.mp hbefore
  obtain ⟨txn, htxn⟩ := Option.isSome_iff_exists.mp hrunning
  rw [hrun, Option.bind_some] at hend
  obtain ⟨t, ht, heq⟩ := Option.map_eq_some_iff.mp hend
  obtain ⟨hnone, hrest⟩ := Prod.mk.inj heq
  obtain ⟨hone, hempty⟩ := Prod.mk.inj hrest
  have hrecorded : Recorded s (.commit 2) t := EveryStep.step_at h hrun ht
  have hchanged : t.committed.owned 1 ≠ s.committed.owned 1 := by
    intro hsame
    rw [hsame, hnone] at hone
    cases hone
  obtain ⟨r, hr, -⟩ := hrecorded txn htxn 1 hchanged
  rw [List.length_eq_zero_iff.mp hempty] at hr
  cases hr

end Sentinel.Commands
