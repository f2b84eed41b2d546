import Sentinel.Authorization
import Sentinel.Common.Http

/-! Pages of other sites, and what they cannot make a browser do.

Any page open in a browser may send requests to the services, and the browser adds the
cookies. What changes something is a `POST`, and passes the middleware first: signing out,
and the commands. The rest of the system goes on as it does without pages. -/
namespace Sentinel.CrossSite
open Library Library.Transition Common Common.Http
open Authorization (Command Entitled State)
open Identity.SignIn (Deployment sampleDeployment sampleSignIn)

/-- What a page may send. -/
inductive Post where
  | logout
  | command (i : Nat) (credentials : Option String) (correlationId : Uuid) (host : Identity.Host) (c : Command)

def Post.action (browser : Nat) : Post → Authorization.Action
  | .logout => .web (.logout browser)
  | .command i credentials correlationId host c => .command i browser credentials correlationId host c

inductive Action where
  | post (browser : Nat) (page : Page) (disclosure : Disclosure) (p : Post)
  | other (a : Authorization.Action)

/-- Sent by a page. -/
def posted : Authorization.Action → Bool
  | .web (.logout _) | .command _ _ _ _ _ _ => true
  | _ => false

section Step
variable (d : Deployment) (host : Inventory.Host) (corsOrigins : List String) (netloc : List Char → Bool)

/-- The settings of the middleware. -/
def settings : Settings := ⟨corsOrigins, d.cookieName, netloc⟩

/-- What the middleware reads of a `POST`. -/
def request (browser : Nat) (page : Page) (disclosure : Disclosure) (s : State) : Request :=
  ⟨"POST", fun name => (s.jars browser).send s.now name, disclosure.origin? page, disclosure.referer? page⟩

def step (a : Action) (s : State) : Option State :=
  match a with
  | .post browser page disclosure p =>
    match dispatch (settings d corsOrigins netloc) (request browser page disclosure s) with
    | .next => Authorization.step d host (p.action browser) s
    | _ => some s
  | .other a => if posted a then none else Authorization.step d host a s

end Step

/-! ### What pages make of it -/

/-- Only pages of ours act in the name of a session. -/
structure SameSite (d : Deployment) (corsOrigins : List String) (s : State) (a : Action) (s' : State) : Prop where
  /-- A request of another site's that carries a session changes nothing. -/
  inert : ∀ browser page disclosure p, a = .post browser page disclosure p →
    ((s.jars browser).send s.now d.cookieName).isSome → page.site ∉ corsOrigins.map rstrip → s' = s
  /-- A transaction begins for a page of ours, or for a bearer token and without a session. -/
  begun : ∀ i t, s.commands.running i = none → s'.commands.running i = some t →
    ∃ browser page disclosure credentials correlationId identityHost c actor,
      a = .post browser page disclosure (.command i credentials correlationId identityHost c) ∧
      t = (c.start actor.toActorContext).begin ∧
      Entitled d s browser credentials identityHost s'.database.identity c.permission actor ∧
      (page.site ∈ corsOrigins.map rstrip ∨ (s.jars browser).send s.now d.cookieName = none)

section Step
variable {d : Deployment} {host : Inventory.Host} {corsOrigins : List String} {netloc : List Char → Bool}
  {s s' : State}

/-- A step of the services, or none. -/
theorem step_cases {a : Action} (hstep : step d host corsOrigins netloc a s = some s') :
    s' = s ∨ (∃ b, Authorization.step d host b s = some s' ∧ a = .other b ∧ posted b = false) ∨
      ∃ browser page disclosure p, Authorization.step d host (p.action browser) s = some s' ∧
        a = .post browser page disclosure p ∧
        dispatch (settings d corsOrigins netloc) (request browser page disclosure s) = .next := by
  cases a with
  | post browser page disclosure p =>
    simp only [step] at hstep
    split at hstep
    · rename_i hnext
      exact .inr (.inr ⟨browser, page, disclosure, p, hstep, rfl, hnext⟩)
    · exact .inl (Option.some.inj hstep).symm
  | other b =>
    simp only [step] at hstep
    split_ifs at hstep with hposted
    exact .inr (.inl ⟨b, hstep, rfl, by simpa using hposted⟩)

theorem inv_step {a : Action} (h : Authorization.Inv d s) (hstep : step d host corsOrigins netloc a s = some s') :
    Authorization.Inv d s' := by
  rcases step_cases hstep with rfl | ⟨b, hb, -⟩ | ⟨browser, page, disclosure, p, hp, -⟩
  · exact h
  · exact Authorization.inv_step h hb
  · exact Authorization.inv_step h hp

/-- What gets through with a session comes from a page of ours. -/
theorem allowed_of_next (hsound : (settings d corsOrigins netloc).Sound) {browser : Nat} {page : Page}
    {disclosure : Disclosure} (hsession : ((s.jars browser).send s.now d.cookieName).isSome)
    (hnext : dispatch (settings d corsOrigins netloc) (request browser page disclosure s) = .next) :
    page.site ∈ corsOrigins.map rstrip :=
  site_allowed hsound rfl rfl (show "POST" ∉ ["GET", "HEAD", "OPTIONS"] by decide) hsession hnext

theorem sameSite_step (hsound : (settings d corsOrigins netloc).Sound) {a : Action} (h : Authorization.Inv d s)
    (hstep : step d host corsOrigins netloc a s = some s') : SameSite d corsOrigins s a s' := by
  rcases step_cases hstep with rfl | ⟨b, hb, rfl, hposted⟩ | ⟨browser, page, disclosure, p, hp, rfl, hnext⟩
  · refine ⟨fun _ _ _ _ _ _ _ => rfl, fun i t hnone ht => ?_⟩
    rw [hnone] at ht
    cases ht
  · refine ⟨fun browser page disclosure p heq => ?_, fun i t hnone ht => ?_⟩
    · cases heq
    obtain ⟨browser, credentials, correlationId, identityHost, c, actor, rfl, -⟩ :=
      Authorization.rightful_step h hb i t hnone ht
    cases hposted
  · refine ⟨fun browser' page' disclosure' p' heq hsession hother => ?_, fun i t hnone ht => ?_⟩
    · cases heq
      exact absurd (allowed_of_next hsound hsession hnext) hother
    · obtain ⟨browser', credentials, correlationId, identityHost, c, actor, haction, hbegin, -, hentitled⟩ :=
        Authorization.rightful_step h hp i t hnone ht
      cases p with
      | logout => cases haction
      | command j credentials' correlationId' identityHost' c' =>
        cases haction
        refine ⟨browser, page, disclosure, credentials, correlationId, identityHost, c, actor, rfl, hbegin, hentitled, ?_⟩
        cases hsession : (s.jars browser).send s.now d.cookieName with
        | none => exact .inr rfl
        | some token => exact .inl (allowed_of_next hsound (by rw [hsession]; rfl) hnext)

/-- What no page sends goes on as without pages. -/
theorem run_other {actions : List Authorization.Action} (h : ∀ b ∈ actions, posted b = false) (s : State) :
    run (step d host corsOrigins netloc) (actions.map .other) s = run (Authorization.step d host) actions s := by
  induction actions generalizing s with
  | nil => rfl
  | cons b rest ih =>
    obtain ⟨hb, hrest⟩ := List.forall_mem_cons.mp h
    rw [List.map_cons, run_cons, run_cons]
    show (if posted b then none else Authorization.step d host b s).bind _ = _
    rw [hb]
    cases hs : Authorization.step d host b s with
    | none => rfl
    | some s' => exact ih hrest s'

theorem step_post {browser : Nat} {page : Page} {disclosure : Disclosure} {p : Post}
    (h : dispatch (settings d corsOrigins netloc) (request browser page disclosure s) = .next) :
    step d host corsOrigins netloc (.post browser page disclosure p) s = Authorization.step d host (p.action browser) s := by
  simp only [step, h]

theorem step_rejected {browser : Nat} {page : Page} {disclosure : Disclosure} {p : Post}
    (h : dispatch (settings d corsOrigins netloc) (request browser page disclosure s) ≠ .next) :
    step d host corsOrigins netloc (.post browser page disclosure p) s = some s := by
  simp only [step]

end Step

/-- **No other site acts in somebody's name**: whatever pages are open in which browsers, and
whatever of themselves they let the browsers disclose, a request that carries a session is
served for pages of the configured origins only; one from another page changes nothing, and
no transaction of a command begins for it. -/
theorem same_site (d : Deployment) (host : Inventory.Host) (corsOrigins : List String) (netloc : List Char → Bool)
    (hsound : (settings d corsOrigins netloc).Sound) (now : Nat) (actions : List Action) :
    EveryStep (step d host corsOrigins netloc) (SameSite d corsOrigins) actions (Authorization.initial now) :=
  EveryStep.of_invariant actions (Authorization.inv_initial d now) (fun _ _ _ => inv_step)
    fun _ _ _ => sameSite_step hsound

/-- The page of the web application. -/
def samplePage : Page where
  origin := ⟨['h', 't', 't', 'p'], ['s', 'e', 'n', 't', 'i', 'n', 'e', 'l'], rfl, rfl, List.cons_ne_nil _ _, rfl⟩
  path := ['/', 'r']
  separated := .inr rfl

/-- A page that names the application in its path. -/
def otherPage : Page where
  origin := ⟨['h', 't', 't', 'p'], ['o', 't', 'h', 'e', 'r'], rfl, rfl, List.cons_ne_nil _ _, rfl⟩
  path := ['/', 'h', 't', 't', 'p', ':', '/', '/', 's', 'e', 'n', 't', 'i', 'n', 'e', 'l']
  separated := .inr rfl

/-- Somebody signs in, and both pages send a command. -/
def sampleRun : List Action :=
  sampleSignIn.map (fun a => .other (.web a)) ++
    [.post 0 samplePage (.origin none) (.command 0 none 4 Identity.laterHost (.discover (fun _ => 0) [])),
     .post 0 otherPage .referer (.command 1 none 4 Identity.laterHost (.discover (fun _ => 0) []))]

/-- The middleware of the sample. -/
def sampleSettings : Settings := settings sampleDeployment ["http://sentinel/"] fun _ => true

/-- The command of the sample. -/
def sampleCommand : Command := .discover (fun _ => 0) []

theorem same_site_sample :
    (run (step sampleDeployment Inventory.sampleHost ["http://sentinel/"] fun _ => true) sampleRun
        (Authorization.initial 0)).map (fun s => ((s.commands.running 0).isSome, (s.commands.running 1).isSome)) =
      some (true, false) ∧
    EveryStep (step sampleDeployment Inventory.sampleHost ["http://sentinel/"] fun _ => true)
      (SameSite sampleDeployment ["http://sentinel/"]) sampleRun (Authorization.initial 0) := by
  refine ⟨?_, same_site sampleDeployment Inventory.sampleHost ["http://sentinel/"] (fun _ => true)
    ⟨by decide, by decide⟩ 0 sampleRun⟩
  have hend : (run (Identity.SignIn.step sampleDeployment) sampleSignIn (Identity.SignIn.initial 0)).any (fun w =>
      dispatch sampleSettings (request 0 samplePage (.origin none) ((Authorization.initial 0).withWeb w)) = .next ∧
        (Identity.SignIn.session 0 w.log).any fun x => Identity.Good sampleDeployment.session x.time w.now ∧
          (Identity.resolveSession Identity.laterHost x.identity.tenant.id x.identity.user.id w.store).toOption.any
            fun identity => (∃ p ∈ identity.permissions, p.name = sampleCommand.permission) ∧
              (((Authorization.initial 0).withWeb w).run Inventory.sampleHost (.begin 0 (sampleCommand.start
                (Identity.actorOf identity 4).toActorContext))).any fun s =>
                  dispatch sampleSettings (request 0 otherPage .referer s) ≠ .next ∧
                    (s.commands.running 0).isSome ∧ (s.commands.running 1).isSome = false) = true := by
    decide +kernel
  obtain ⟨w, hw, hserved⟩ := (Option.any_eq_true _ _).mp hend
  obtain ⟨hnext, hsigned⟩ := of_decide_eq_true hserved
  obtain ⟨x, hx, hresolves⟩ := (Option.any_eq_true _ _).mp hsigned
  obtain ⟨hgood, hresolved⟩ := of_decide_eq_true hresolves
  obtain ⟨identity, hidentity, hpermitted⟩ := (Option.any_eq_true _ _).mp hresolved
  obtain ⟨hpermission, hbegun⟩ := of_decide_eq_true hpermitted
  obtain ⟨s, hs, hends⟩ := (Option.any_eq_true _ _).mp hbegun
  obtain ⟨hrejected, hfirst, hsecond⟩ := of_decide_eq_true hends
  have hinv : Identity.SignIn.Inv sampleDeployment ((Authorization.initial 0).withWeb w).web :=
    (Always.of_invariant sampleSignIn (Identity.SignIn.inv_initial sampleDeployment 0)
      fun _ _ _ => Identity.SignIn.inv_step).last hw
  have hposted : ∀ b ∈ sampleSignIn.map Authorization.Action.web, posted b = false := by decide
  have hrun : run (step sampleDeployment Inventory.sampleHost ["http://sentinel/"] fun _ => true) sampleRun
      (Authorization.initial 0) = some s := by
    unfold sampleRun
    rw [run_append, ← Function.comp_def Action.other, ← List.map_map, run_other hposted, Authorization.run_web,
      show (Authorization.initial 0).web = Identity.SignIn.initial 0 from rfl, hw]
    show (step _ _ _ _ (.post 0 samplePage (.origin none) (.command 0 none 4 Identity.laterHost sampleCommand)) _).bind _ = _
    rw [step_post hnext]
    show (Authorization.step _ _ (.command 0 0 none 4 Identity.laterHost sampleCommand) _).bind _ = _
    rw [Authorization.step_command hinv hx hgood (Fallible.toOption_eq_some.mp hidentity) hpermission, hs]
    exact congrArg (Option.bind · _) (step_rejected hrejected)
  rw [hrun, Option.map_some, hfirst, hsecond]

end Sentinel.CrossSite
