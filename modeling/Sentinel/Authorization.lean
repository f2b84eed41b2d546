import Sentinel.Commands.SyncJobs
import Sentinel.Identity.Agreement
import Sentinel.Identity.Profile

/-! From the sign-in to the command: who may make a service write.

Browsers sign in and send commands to the services; a service asks the identity service
whose session or bearer token a command came with, looks for the permission it wants, and
runs the transaction of the command for that actor, next to those of others. Sign-ins,
sign-outs and changes to the accounts go on meanwhile. -/
namespace Sentinel.Authorization
open Library Library.Transition Library.ReadCommitted Library.CookieJar Common
open Identity (Actor Administers Confined Current Extends ResolvedIdentity TokenPrincipal Writes)
open Identity.SignIn (Acceptance Deployment IsOf sampleDeployment sampleSignIn)

/-- A command, without its actor. -/
inductive Command where
  | discover (ids : Nat → Uuid) (discovered : List Inventory.AzureSubscription)
  | syncJob (mode : String) (subscriptionIds : List Uuid) (idempotencyKey : String) (id : Uuid)
      (requestedAt : Instant) (e : Envelope)
  | assessment (request : Intelligence.AssessmentCreate) (id : Uuid) (e : Envelope)
  | operation (request : Operations.OperationCreate) (idempotencyKey : String) (id : Uuid) (e : Envelope)

/-- The permission its endpoint wants. -/
def Command.permission : Command → String
  | .discover _ _ | .syncJob _ _ _ _ _ _ => "inventory.sync.execute"
  | .assessment _ _ _ => "analysis.create"
  | .operation _ _ _ _ => "operations.create"

/-- What its endpoint does for an actor. -/
def Command.start (actor : ActorContext) : Command → Commands.Start
  | .discover ids discovered => .discover actor ids discovered
  | .syncJob mode subscriptionIds idempotencyKey id requestedAt e =>
    .syncJob ⟨actor.tenantId, actor.actorId, actor.entraTenantId, mode, subscriptionIds, actor.correlationId,
      idempotencyKey⟩ id requestedAt e
  | .assessment request id e => .assessment actor request id e
  | .operation request idempotencyKey id e => .operation actor request idempotencyKey id e

structure State where
  now : Nat
  jars : Nat → Jar String String
  grants : List Identity.SignIn.Grant
  log : List Identity.SignIn.Event
  /-- The database, and the transactions of commands on their way. -/
  commands : System Commands.Database Commands.Txn

namespace State

def database (s : State) : Commands.Database := s.commands.committed

/-- The browsers and the identity service. -/
def web (s : State) : Identity.SignIn.State := ⟨s.now, s.jars, s.grants, s.database.identity, s.log⟩

def withWeb (s : State) (w : Identity.SignIn.State) : State where
  now := w.now
  jars := w.jars
  grants := w.grants
  log := w.log
  commands := {s.commands with committed := {s.database with identity := w.store}}

end State

def initial (now : Nat) : State := ⟨now, fun _ => CookieJar.empty, [], [], .idle .empty⟩

inductive Action where
  | web (a : Identity.SignIn.Action)
  /-- A browser sends a command, perhaps with a bearer token. -/
  | command (i browser : Nat) (credentials : Option String) (correlationId : Uuid) (host : Identity.Host) (c : Command)
  | statement (i : Nat)
  | commit (i : Nat)
  | abort (i : Nat)

section Step
variable (d : Deployment) (host : Inventory.Host)

/-- What the identity service answers to a service about a browser, and the state after. -/
def ask (browser : Nat) (credentials : Option String) (host : Identity.Host) (s : State) :
    Except Identity.Rejection Json.Object × State :=
  let answer := Identity.profile (d.world s.now s.grants) host ((s.jars browser).send s.now d.cookieName) credentials
    s.database.identity
  (answer.1, s.withWeb {s.web with store := answer.2})

/-- The transactions of commands take a step. -/
def State.run (s : State) (a : ReadCommitted.Action Commands.Start Unit) : Option State :=
  ((Commands.protocol host).step a s.commands).map fun commands => {s with commands := commands}

/-- The answer of the identity service and the begin of the transaction are one step, as of
the moment of the answer: what a handler does in between (`discover` awaits the provider)
reads and writes no table. -/
def step (a : Action) (s : State) : Option State :=
  match a with
  | .web a => (Identity.SignIn.step d a s.web).map s.withWeb
  | .command i browser credentials correlationId identityHost c =>
    let (answer, s) := ask d browser credentials identityHost s
    match Identity.requireActor d.tokens.uuid c.permission correlationId answer with
    | .error _ => some s
    | .ok actor => s.run host (.begin i (c.start actor.toActorContext))
  | .statement i => s.run host (.statement i ())
  | .commit i => s.run host (.commit i)
  | .abort i => s.run host (.abort i)

end Step

/-! ### Who an actor is -/

/-- The identity is that of the session of the browser, or of the bearer token of a browser
that sends no session. -/
inductive Vouched (d : Deployment) (s : State) (browser : Nat) (credentials : Option String) (host : Identity.Host)
    (store : Identity.Store) (identity : ResolvedIdentity) : Prop
  | session (x : Acceptance) (hsession : Identity.SignIn.session browser s.log = some x)
      (hgood : Identity.Good d.session x.time s.now) (hof : IsOf host store x identity)
  | bearer (token : String) (p : TokenPrincipal) (hcredentials : credentials = some token)
      (hnone : (s.jars browser).send s.now d.cookieName = none) (hvalid : d.base.validate token none = .ok p)
      (hcurrent : Current host store identity)
      (hscope : identity.tenant.identityScopeKey = Identity.identityScopeKey p.entraTenantId p.entraObjectId)
      (hobject : identity.user.entraObjectId = p.entraObjectId)

theorem Vouched.current {d : Deployment} {s : State} {browser : Nat} {credentials : Option String}
    {host : Identity.Host} {store : Identity.Store} {identity : ResolvedIdentity}
    (h : Vouched d s browser credentials host store identity) : Current host store identity := by
  cases h with
  | session x hsession hgood hof => exact hof.toCurrent
  | bearer token p hcredentials hnone hvalid hcurrent => exact hcurrent

/-- The actor is one vouched for, with the permission. -/
structure Entitled (d : Deployment) (s : State) (browser : Nat) (credentials : Option String) (host : Identity.Host)
    (store : Identity.Store) (permission : String) (actor : Actor) : Prop where
  vouched : ∃ identity, Vouched d s browser credentials host store identity ∧
    actor = Identity.actorOf identity actor.correlationId
  permission : ∃ p ∈ Identity.effectivePermissions host actor.tenantId actor.actorId store, p.name = permission

section Asking
variable {d : Deployment} {s : State} {browser : Nat} {credentials : Option String} {host : Identity.Host}

theorem ask_vouched (h : Identity.SignIn.Inv d s.web) {identity : ResolvedIdentity} {store : Identity.Store}
    (hidentity : Identity.getIdentity (d.world s.now s.grants) host ((s.jars browser).send s.now d.cookieName) credentials
      s.database.identity = .ok (identity, store)) :
    Writes s.database.identity store ∧ Vouched d s browser credentials host store identity := by
  cases hsend : (s.jars browser).send s.now d.cookieName with
  | none =>
    rw [hsend] at hidentity
    cases credentials with
    | none => cases hidentity
    | some token =>
      obtain ⟨p, hvalid, hresolve⟩ := Fallible.bind_eq_ok.mp hidentity
      obtain ⟨hcurrent, hscope, hobject⟩ := Identity.resolveAndSync_current hresolve
      exact ⟨(Identity.resolveAndSync_writes hresolve).1, .bearer token p rfl hsend hvalid hcurrent hscope hobject⟩
  | some token =>
    rw [hsend, Identity.getIdentity_session (h.sent hsend).1, ← hsend] at hidentity
    obtain ⟨rfl, x, hsession, hgood, hof⟩ := (Identity.SignIn.authentic_of_inv h browser host identity store).mp hidentity
    exact ⟨.refl, .session x hsession hgood hof⟩

/-- Whom a service lets in. -/
theorem entitled_of_requireActor (h : Identity.SignIn.Inv d s.web) {permission : String} {correlationId : Uuid} {actor : Actor}
    (hactor : Identity.requireActor d.tokens.uuid permission correlationId (ask d browser credentials host s).1 = .ok actor) :
    Writes s.database.identity (ask d browser credentials host s).2.database.identity ∧
      actor.correlationId = correlationId ∧
      Entitled d s browser credentials host (ask d browser credentials host s).2.database.identity permission actor := by
  obtain ⟨identity, hidentity, rfl, p, hp, hname⟩ :=
    (Identity.requireActor_eq_ok_iff d.tokens.uuid_str (Prod.eta _).symm).mp hactor
  obtain ⟨hwrites, hvouched⟩ := ask_vouched h hidentity
  exact ⟨hwrites, rfl, ⟨identity, hvouched, rfl⟩, p, hvouched.current.permissions ▸ hp, hname⟩

/-- The identity service may note who asked, also when the service lets nobody in. -/
theorem ask_writes : Writes s.database.identity (ask d browser credentials host s).2.database.identity := by
  show Writes s.database.identity (Identity.profile _ _ _ _ _).2
  unfold Identity.profile
  split
  · exact .refl
  · rename_i identity store hidentity
    exact Identity.getIdentity_writes hidentity

end Asking

/-! ### Who requested a row -/

/-- Whoever requested a row administers its tenant. -/
structure Requested (db : Commands.Database) : Prop where
  operations : ∀ o ∈ db.operations.operations, Administers db.identity o.tenantId o.requestedBy
  assessments : ∀ a ∈ db.intelligence.assessments, Administers db.identity a.tenantId a.requestedBy
  jobs : ∀ j ∈ db.inventory.jobs, Administers db.identity j.tenantId j.requestedBy

/-- The transaction is of a command of an administrator, and what it is to add is theirs. -/
def Led (store : Identity.Store) : Commands.Txn → Prop
  | .callback .. => False
  | .discover actor _ _ _ => Administers store actor.tenantId actor.actorId
  | .syncJob r _ _ _ stage => Administers store r.tenantId r.actorId ∧
      ∀ j, stage = .looked (.fresh j) → j.tenantId = r.tenantId ∧ j.requestedBy = r.actorId
  | .assessment actor _ _ _ => Administers store actor.tenantId actor.actorId
  | .operation actor _ _ _ _ stage => Administers store actor.tenantId actor.actorId ∧
      ∀ o, stage = .looked (.fresh o) → o.tenantId = actor.tenantId ∧ o.requestedBy = actor.actorId

section Rows
variable {store store' : Identity.Store} {db db' : Commands.Database} {t t' : Commands.Txn} {host : Inventory.Host}

theorem administers_mono {tenantId userId : Uuid} (h : Administers store tenantId userId)
    (hs : Extends store store') : Administers store' tenantId userId := by
  obtain ⟨g, hg, htenant, huser, r, hr, hid, hname⟩ := h
  exact ⟨g, hs.userRoles hg, htenant, huser, r, hs.roles hr, hid, hname⟩

theorem Led.mono (h : Led store t) (hs : Extends store store') : Led store' t := by
  cases t with
  | callback => exact h
  | discover | assessment => exact administers_mono h hs
  | syncJob | operation => exact ⟨administers_mono h.1 hs, h.2⟩

theorem Requested.mono (h : Requested db) (hs : Extends db.identity store') :
    Requested {db with identity := store'} where
  operations := fun o ho => administers_mono (h.operations o ho) hs
  assessments := fun a ha => administers_mono (h.assessments a ha) hs
  jobs := fun j hj => administers_mono (h.jobs j hj) hs

theorem led_begin {actor : ActorContext} (h : Administers store actor.tenantId actor.actorId) (c : Command) :
    Led store (c.start actor).begin := by
  cases c with
  | discover | assessment => exact h
  | syncJob => exact ⟨h, fun j hj => by cases hj⟩
  | operation => exact ⟨h, fun o ho => by cases ho⟩

theorem led_statement (h : Led db.identity t) (hs : Commands.statement host db t = some t') : Led db.identity t' := by
  unfold Commands.statement at hs
  split at hs
  · cases h
  · cases hs
    exact h
  · cases hs
  · rename_i r id requestedAt e stage
    obtain ⟨stage', hstage, rfl⟩ := Option.map_eq_some_iff.mp hs
    refine ⟨h.1, fun j hj => ?_⟩
    subst hj
    unfold Inventory.requestJob at hstage
    split at hstage
    · split_ifs at hstage
      cases hstage
    · cases hfind : Inventory.findJob r.tenantId r.idempotencyKey db.inventory with
      | none =>
        rw [hfind] at hstage
        cases hstage
        exact ⟨rfl, rfl⟩
      | some j =>
        rw [hfind] at hstage
        cases hstage
    · cases hstage
  · cases hs
  · rename_i actor request idempotencyKey id e stage
    obtain ⟨stage', hstage, rfl⟩ := Option.map_eq_some_iff.mp hs
    refine ⟨h.1, fun o ho => ?_⟩
    subst ho
    unfold Operations.create at hstage
    split at hstage
    · obtain ⟨definition, -, heq⟩ := Option.map_eq_some_iff.mp hstage
      cases hfind : db.operations.operations.find? fun o => o.key = (actor.tenantId, idempotencyKey) with
      | none =>
        rw [hfind] at heq
        cases heq
        exact ⟨rfl, rfl⟩
      | some o =>
        rw [hfind] at heq
        cases heq
    · cases hstage

theorem requested_commit (h : Requested db) (hled : Led db.identity t) (hc : Commands.Commits db t db') :
    db'.identity = db.identity ∧ Requested db' := by
  cases hc with
  | callback => cases hled
  | discover hw =>
    refine ⟨rfl, h.operations, h.assessments, ?_⟩
    show ∀ j ∈ Inventory.Store.jobs _, _
    rw [Commands.writeAllDiscovered_jobs hw]
    exact h.jobs
  | @syncJob r id requestedAt e job inventory outbox hw ho =>
    refine ⟨rfl, h.operations, h.assessments, ?_⟩
    cases job with
    | found j =>
      cases hw
      exact h.jobs
    | fresh j =>
      obtain ⟨htenant, huser⟩ := hled.2 j rfl
      unfold Inventory.writeRequested at hw
      dsimp only at hw
      split_ifs at hw
      show ∀ k ∈ inventory.jobs, _
      rw [(Inventory.insertJob_rows hw).1]
      intro k hk
      cases List.mem_append.mp hk with
      | inl hk => exact h.jobs k hk
      | inr hk =>
        obtain rfl := List.mem_singleton.mp hk
        show Administers db.identity k.tenantId k.requestedBy
        rw [htenant, huser]
        exact hled.1
  | @assessment actor request id e intelligence outbox hw ho =>
    refine ⟨rfl, h.operations, ?_, h.jobs⟩
    show ∀ a ∈ intelligence.assessments, _
    rw [Intelligence.insert_assessments hw]
    intro a ha
    cases List.mem_append.mp ha with
    | inl ha => exact h.assessments a ha
    | inr ha =>
      obtain rfl := List.mem_singleton.mp ha
      exact hled
  | replayed => exact ⟨rfl, h.operations, h.assessments, h.jobs⟩
  | @created actor request idempotencyKey id e o operations outbox hw ho =>
    obtain ⟨htenant, huser⟩ := hled.2 o rfl
    refine ⟨rfl, ?_, h.assessments, h.jobs⟩
    show ∀ q ∈ operations.operations, _
    rw [Operations.insert_operations hw]
    intro q hq
    cases List.mem_append.mp hq with
    | inl hq => exact h.operations q hq
    | inr hq =>
      obtain rfl := List.mem_singleton.mp hq
      show Administers db.identity o.tenantId o.requestedBy
      rw [htenant, huser]
      exact hled.1

end Rows

/-! ### The invariant -/

structure Inv (d : Deployment) (s : State) : Prop where
  web : Identity.SignIn.Inv d s.web
  confined : Confined s.database.identity
  requested : Requested s.database
  running : ∀ i t, s.commands.running i = some t → Led s.database.identity t

section Inv
variable {d : Deployment} {host : Inventory.Host} {s s' : State}

theorem inv_initial (d : Deployment) (now : Nat) : Inv d (initial now) where
  web := Identity.SignIn.inv_initial d now
  confined := Identity.confined_empty
  requested := ⟨by simp [initial, State.database, System.idle, Commands.Database.empty, Operations.Store.empty],
    by simp [initial, State.database, System.idle, Commands.Database.empty, Intelligence.Store.empty],
    by simp [initial, State.database, System.idle, Commands.Database.empty, Inventory.Store.empty]⟩
  running := fun _ _ h => by cases h

/-- Who may command is an administrator. -/
theorem administers_of_entitled {browser : Nat} {credentials : Option String} {identityHost : Identity.Host}
    {store : Identity.Store} {c : Command} {actor : Actor} (h : Confined store)
    (hentitled : Entitled d s browser credentials identityHost store c.permission actor) :
    Administers store actor.tenantId actor.actorId := by
  obtain ⟨p, hp, hname⟩ := hentitled.permission
  have hbeyond : p.name ∉ Identity.readerPermissions := by
    rw [hname]
    cases c <;> simp [Command.permission, Identity.readerPermissions]
  obtain ⟨r, hr, hrole⟩ := (Identity.privileged_of_confined h).reader _ _ _ p hp hbeyond
  obtain ⟨hr, hheld⟩ := Identity.mem_effectiveRoles.mp hr
  obtain ⟨g, hg, htenant, huser, hid, -⟩ := Identity.mem_heldRoleIds.mp hheld
  exact ⟨g, hg, htenant, huser, r, hr, hid.symm, hrole⟩

/-- The identity service takes a step, and the commands none. -/
theorem Inv.withWeb (h : Inv d s) {w : Identity.SignIn.State} (hw : Identity.SignIn.Inv d w)
    (hwrites : Writes s.database.identity w.store) : Inv d (s.withWeb w) where
  web := hw
  confined := Identity.writes_keep (fun _ _ => Identity.confined_write) h.confined hwrites
  requested := h.requested.mono (Identity.writes_extends hwrites)
  running := fun i t ht => (h.running i t ht).mono (Identity.writes_extends hwrites)

theorem Inv.ask (h : Inv d s) (browser : Nat) (credentials : Option String) (identityHost : Identity.Host) :
    Inv d (ask d browser credentials identityHost s).2 :=
  h.withWeb (h.web.store ask_writes) ask_writes

/-- The commands take a step: what begins is of an administrator. -/
theorem Inv.run (h : Inv d s) {a : ReadCommitted.Action Commands.Start Unit} (hstep : s.run host a = some s')
    (hbegin : ∀ i r, a = .begin i r → Led s.database.identity r.begin) : Inv d s' := by
  obtain ⟨commands, hcommands, rfl⟩ := Option.map_eq_some_iff.mp hstep
  have hset : ∀ (i : Nat) (t : Option Commands.Txn), (∀ u, t = some u → Led s.database.identity u) →
      ∀ j u, (s.commands.set i t).running j = some u → Led s.database.identity u := by
    intro i t ht j u hu
    rw [System.set_running] at hu
    split_ifs at hu
    · exact ht u hu
    · exact h.running j u hu
  cases Protocol.step_cases hcommands with
  | @begin _ i r hi =>
    refine ⟨h.web, h.confined, h.requested, hset i _ fun u hu => ?_⟩
    cases hu
    exact hbegin i r rfl
  | @statement _ i _ t t' hi ht =>
    refine ⟨h.web, h.confined, h.requested, hset i _ fun u hu => ?_⟩
    cases hu
    exact led_statement (h.running i t hi) ht
  | @commit _ i t db hi hc =>
    obtain ⟨hidentity, hrequested⟩ := requested_commit h.requested (h.running i t hi) (Commands.commits_of_commit hc)
    have hweb : State.web {s with commands := {s.commands.set i none with committed := db}} = s.web := by
      show (⟨_, _, _, db.identity, _⟩ : Identity.SignIn.State) = _
      rw [hidentity]
      rfl
    refine ⟨hweb ▸ h.web, hidentity ▸ h.confined, hrequested, fun j u hu => ?_⟩
    show Led db.identity u
    rw [hidentity]
    exact hset i none (fun u hu => by cases hu) j u hu
  | @abort _ i t hi => exact ⟨h.web, h.confined, h.requested, hset i _ fun u hu => by cases hu⟩

theorem inv_step {a : Action} (h : Inv d s) (hstep : step d host a s = some s') : Inv d s' := by
  cases a with
  | web a =>
    obtain ⟨w, hw, rfl⟩ := Option.map_eq_some_iff.mp hstep
    exact h.withWeb (Identity.SignIn.inv_step h.web hw) (Identity.SignIn.step_writes hw)
  | command i browser credentials correlationId identityHost c =>
    have hasked := h.ask browser credentials identityHost
    simp only [step] at hstep
    split at hstep
    · cases hstep
      exact hasked
    · rename_i actor hactor
      obtain ⟨-, -, hentitled⟩ := entitled_of_requireActor h.web hactor
      refine hasked.run hstep fun j r hr => ?_
      cases hr
      exact led_begin (administers_of_entitled hasked.confined hentitled) c
  | statement i => exact h.run hstep fun j r hr => by cases hr
  | commit i => exact h.run hstep fun j r hr => by cases hr
  | abort i => exact h.run hstep fun j r hr => by cases hr

/-- Transactions begin with commands only, each for an actor entitled to the command. -/
def Rightful (d : Deployment) (s : State) (a : Action) (s' : State) : Prop :=
  ∀ i t, s.commands.running i = none → s'.commands.running i = some t →
    ∃ browser credentials correlationId identityHost c actor,
      a = .command i browser credentials correlationId identityHost c ∧
      t = (c.start actor.toActorContext).begin ∧ actor.correlationId = correlationId ∧
      Entitled d s browser credentials identityHost s'.database.identity c.permission actor

/-- What a step of the commands begins. -/
theorem begin_of_run {a : ReadCommitted.Action Commands.Start Unit} (hstep : s.run host a = some s') {i : Nat}
    {t : Commands.Txn} (hnone : s.commands.running i = none) (ht : s'.commands.running i = some t) :
    ∃ r, a = .begin i r ∧ t = r.begin ∧ s'.database = s.database := by
  obtain ⟨commands, hcommands, rfl⟩ := Option.map_eq_some_iff.mp hstep
  by_cases hi : i = a.index
  · cases Protocol.step_cases hcommands with
    | @begin _ j r hj =>
      obtain rfl : i = j := hi
      refine ⟨r, rfl, ?_, rfl⟩
      change (s.commands.set i _).running i = some t at ht
      rw [System.set_running, if_pos rfl] at ht
      exact (Option.some.inj ht).symm
    | @statement _ j _ u u' hj | @commit _ j u db hj | @abort _ j u hj =>
      obtain rfl : i = j := hi
      rw [hnone] at hj
      cases hj
  · change commands.running i = some t at ht
    rw [Protocol.step_running hcommands hi, hnone] at ht
    cases ht

theorem rightful_step {a : Action} (h : Inv d s) (hstep : step d host a s = some s') : Rightful d s a s' := by
  intro i t hnone ht
  cases a with
  | web a =>
    obtain ⟨w, hw, rfl⟩ := Option.map_eq_some_iff.mp hstep
    exact absurd (hnone.symm.trans ht) (by simp)
  | command j browser credentials correlationId identityHost c =>
    simp only [step] at hstep
    split at hstep
    · cases hstep
      exact absurd (hnone.symm.trans ht) (by simp)
    · rename_i actor hactor
      obtain ⟨-, hcorrelation, hentitled⟩ := entitled_of_requireActor h.web hactor
      obtain ⟨r, hr, rfl, hdatabase⟩ := begin_of_run hstep hnone ht
      cases hr
      exact ⟨browser, credentials, correlationId, identityHost, c, actor, rfl, rfl, hcorrelation, hdatabase ▸ hentitled⟩
  | statement j | commit j | abort j =>
    obtain ⟨r, hr, -⟩ := begin_of_run hstep hnone ht
    cases hr

end Inv

/-! ### Who is served -/

section Serving
variable {d : Deployment} {host : Inventory.Host} {s : State}

/-- The browsers and the identity service go on by themselves. -/
theorem run_web (actions : List Identity.SignIn.Action) (s : State) :
    run (step d host) (actions.map .web) s = (run (Identity.SignIn.step d) actions s.web).map s.withWeb := by
  induction actions generalizing s with
  | nil => rfl
  | cons a rest ih =>
    rw [List.map_cons, run_cons, run_cons]
    show ((Identity.SignIn.step d a s.web).map s.withWeb).bind _ = _
    cases Identity.SignIn.step d a s.web with
    | none => rfl
    | some w => exact ih (s.withWeb w)

/-- Who is signed in, and has the permission, is served. -/
theorem step_command (h : Identity.SignIn.Inv d s.web) {i browser : Nat} {credentials : Option String}
    {correlationId : Uuid} {identityHost : Identity.Host} {c : Command} {x : Acceptance} {identity : ResolvedIdentity}
    (hsession : Identity.SignIn.session browser s.log = some x) (hgood : Identity.Good d.session x.time s.now)
    (hresolved : Identity.resolveSession identityHost x.identity.tenant.id x.identity.user.id s.database.identity =
      .ok identity) (hpermission : ∃ p ∈ identity.permissions, p.name = c.permission) :
    step d host (.command i browser credentials correlationId identityHost c) s =
      s.run host (.begin i (c.start (Identity.actorOf identity correlationId).toActorContext)) := by
  have hread : Identity.getIdentity (d.world s.now s.grants) identityHost ((s.jars browser).send s.now d.cookieName) none
      s.database.identity = .ok (identity, s.database.identity) :=
    (h.read_good hsession hgood identityHost).trans (congrArg (Except.map _) hresolved)
  have hidentity : Identity.getIdentity (d.world s.now s.grants) identityHost ((s.jars browser).send s.now d.cookieName)
      credentials s.database.identity = .ok (identity, s.database.identity) := by
    cases hsend : (s.jars browser).send s.now d.cookieName with
    | none =>
      rw [hsend] at hread
      cases hread
    | some token => rw [Identity.getIdentity_session (h.sent hsend).1, ← hsend, hread]
  have hask : ask d browser credentials identityHost s = (.ok (Identity.profileResponse identity).json, s) := by
    unfold ask Identity.profile
    rw [hidentity]
    rfl
  have hprofile : Identity.profile (d.world s.now s.grants) identityHost ((s.jars browser).send s.now d.cookieName)
      credentials s.database.identity = (.ok (Identity.profileResponse identity).json, s.database.identity) := by
    unfold Identity.profile
    rw [hidentity]
  have hactor : Identity.requireActor d.tokens.uuid c.permission correlationId
      (.ok (Identity.profileResponse identity).json) = .ok (Identity.actorOf identity correlationId) :=
    (Identity.requireActor_eq_ok_iff d.tokens.uuid_str hprofile).mpr ⟨identity, hidentity, rfl, hpermission⟩
  simp only [step, hask, hactor]

end Serving

/-! ### The results -/

/-- **Only tenants' administrators write**: whatever browsers, Microsoft and the services do,
and in whatever order, each operation, assessment and sync job there is was requested by an
administrator of its tenant. -/
theorem requested (d : Deployment) (host : Inventory.Host) (now : Nat) (actions : List Action) :
    Always (step d host) (fun s => Requested s.database) actions (initial now) :=
  (Always.of_invariant actions (inv_initial d now) fun _ _ _ => inv_step).mono fun _ h => h.requested

/-- Somebody signs in and requests an operation. -/
def sampleRun : List Action :=
  sampleSignIn.map .web ++
    [.command 0 0 none 4 Identity.laterHost (.operation ⟨6, "sha256:0", "azure.vm.stop", 8, ⟨[], Json.wellFormed_empty⟩,
      "maintenance"⟩ "stop-tonight" 60 ⟨80, Datetime.utc 0, 90, 0, 0⟩), .statement 0, .commit 0]

/-- The command of `sampleRun`. -/
def sampleCommand : Command :=
  .operation ⟨6, "sha256:0", "azure.vm.stop", 8, ⟨[], Json.wellFormed_empty⟩, "maintenance"⟩ "stop-tonight" 60
    ⟨80, Datetime.utc 0, 90, 0, 0⟩

theorem requested_sample : ∃ s o, run (step sampleDeployment Inventory.sampleHost) sampleRun (initial 0) =
    some s ∧ o ∈ s.database.operations.operations ∧ Administers s.database.identity o.tenantId o.requestedBy := by
  have hend : (run (Identity.SignIn.step sampleDeployment) sampleSignIn (Identity.SignIn.initial 0)).any (fun w =>
      (Identity.SignIn.session 0 w.log).any fun x => Identity.Good sampleDeployment.session x.time w.now ∧
        (Identity.resolveSession Identity.laterHost x.identity.tenant.id x.identity.user.id w.store).toOption.any
          fun identity => (∃ p ∈ identity.permissions, p.name = sampleCommand.permission) ∧
            (((((initial 0).withWeb w).run Inventory.sampleHost (.begin 0 (sampleCommand.start
              (Identity.actorOf identity 4).toActorContext))).bind
                (run (step sampleDeployment Inventory.sampleHost) [.statement 0, .commit 0])).any
              fun s => s.database.operations.operations.length = 1)) = true := by
    -- The sign-in and the transaction; the session token is not read.
    decide +kernel
  obtain ⟨w, hw, hsigned⟩ := (Option.any_eq_true _ _).mp hend
  obtain ⟨x, hx, hresolves⟩ := (Option.any_eq_true _ _).mp hsigned
  obtain ⟨hgood, hresolved⟩ := of_decide_eq_true hresolves
  obtain ⟨identity, hidentity, hserved⟩ := (Option.any_eq_true _ _).mp hresolved
  obtain ⟨hpermission, hcommitted⟩ := of_decide_eq_true hserved
  obtain ⟨s, hs, hone⟩ := (Option.any_eq_true _ _).mp hcommitted
  have hinv : Identity.SignIn.Inv sampleDeployment ((initial 0).withWeb w).web :=
    (Always.of_invariant sampleSignIn (Identity.SignIn.inv_initial sampleDeployment 0)
      fun _ _ _ => Identity.SignIn.inv_step).last hw
  have hrun : run (step sampleDeployment Inventory.sampleHost) sampleRun (initial 0) = some s := by
    unfold sampleRun
    rw [run_append, run_web, show (initial 0).web = Identity.SignIn.initial 0 from rfl, hw]
    show (step _ _ (.command 0 0 none 4 Identity.laterHost sampleCommand) _).bind _ = _
    rw [step_command hinv hx hgood (Fallible.toOption_eq_some.mp hidentity) hpermission]
    exact hs
  obtain ⟨o, ho⟩ := List.exists_mem_of_length_pos (lt_of_lt_of_eq Nat.zero_lt_one (of_decide_eq_true hone).symm)
  exact ⟨s, o, hrun, ho, ((requested sampleDeployment Inventory.sampleHost 0 sampleRun).last hrun).operations o ho⟩

/-- **Whoever a service acts for signed in, or has a token of Microsoft's**: the transaction of
a command begins for the account behind the session of the very browser that sent it, or
behind its bearer token, while that account is active and holds the permission. -/
theorem rightful (d : Deployment) (host : Inventory.Host) (now : Nat) (actions : List Action) :
    EveryStep (step d host) (Rightful d) actions (initial now) :=
  EveryStep.of_invariant actions (inv_initial d now) (fun _ _ _ => inv_step) fun _ _ _ => rightful_step

end Sentinel.Authorization
