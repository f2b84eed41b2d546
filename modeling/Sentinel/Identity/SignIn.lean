import Sentinel.Identity.Microsoft
import Sentinel.Identity.Privileges
import Sentinel.Identity.Session
import Sentinel.Library.CookieJar

/-! Browsers that sign in.

Any number of browsers share a deployment. `/auth/login` gives a browser a state, a PKCE
verifier and perhaps a tenant to remember in cookies; somebody consents at Microsoft, who
keeps a code for the challenge it was asked with; and a browser comes to `/auth/callback`
with a code and a state in the URL. Anyone may have written that URL, so both are
arbitrary, and so is the order of everything, also in one browser with several tabs.

A request and its answer are one step: a browser has the answer to a request, with the
cookies it sets, before it sends the next, while the requests of different browsers come in
any order. Two callbacks that one browser has under way at once are no run of this machine
(`SignIn.Overlap` is about these); a sign-in is accepted when its answer reaches the browser.

Microsoft's token endpoint is taken as it comes, but for PKCE: a code is redeemed only for
the verifier of its challenge (`redeems`). -/
namespace Sentinel.Identity.SignIn
open Library CookieJar Transition

def stateCookie : String := "sentinel_oauth_state"
def verifierCookie : String := "sentinel_pkce_verifier"
def tenantCookie : String := "sentinel_oauth_tenant"

def oauthCookies : List String := [stateCookie, verifierCookie, tenantCookie]

/-- A code somebody got by consenting: for which challenge, and the tokens behind it. -/
structure Grant where
  code : String
  challenge : String
  tokens : Json.Object

/-- What stays the same while a deployment runs. -/
structure Deployment where
  base : World
  oauth : OAuthSettings
  session : SessionSettings
  tokens : Tokens
  cookieName : String
  cookieName_other : cookieName ∉ oauthCookies
  tokenEndpoint : List Grant → String → List (String × String) → Except Rejection Reply
  redeems : ∀ grants url data reply code verifier, tokenEndpoint grants url data = .ok reply → reply.status < 400 →
    data.lookup "code" = some code → data.lookup "code_verifier" = some verifier →
    ∃ g ∈ grants, g.code = code ∧ g.challenge = pkceChallenge verifier ∧ g.tokens = reply.body

/-- What surrounds a request at an instant. -/
def Deployment.world (d : Deployment) (now : Nat) (grants : List Grant) : World :=
  {d.base with
    microsoftClientId := d.oauth.clientId
    exchangeCode := exchangeCode d.oauth (d.tokenEndpoint grants)
    refresh := refreshTokens d.oauth (d.tokenEndpoint grants)
    encodeSession := encodeSession d.session d.tokens now
    decodeSession := decodeSession d.session d.tokens now}

/-! ### The endpoints -/

/-- The bytes a login draws. -/
structure Secrets where
  state : List Nat
  verifier : List Nat

/-- `_oauth_cookie`. -/
def oauthCookie (name value : String) : SetCookie String String := .keep name value (600 * second)

/-- The cookies of the answer to a login. -/
def loginHeaders (state verifier : String) (tenant : Option Uuid) : List (SetCookie String String) :=
  [oauthCookie stateCookie state, oauthCookie verifierCookie verifier,
    match tenant with
    | some tenant => oauthCookie tenantCookie (Uuid.str tenant)
    | none => .delete tenantCookie]

/-- `login`: the URL to go to, and the cookies. -/
def login (d : Deployment) (secrets : Secrets) (tenant : Option Uuid) :
    Except Rejection (String × List (SetCookie String String)) := do
  let state := tokenUrlsafe secrets.state
  let verifier := tokenUrlsafe secrets.verifier
  let url ← authorizationUrl d.oauth state (pkceChallenge verifier) (tenant.map Uuid.str)
  return (url, loginHeaders state verifier tenant)

/-- `callback`: who signed in, as whom, and the session token. -/
def signIn (w : World) (host : Host) (r : CallbackRequest) (s : Store) :
    Except Rejection (TokenPrincipal × ResolvedIdentity × String) × Store :=
  match authorize w r with
  | .error rejection => (.error rejection, s)
  | .ok (principal, encryptedRefreshToken) =>
    match onboardOAuthUser host principal none encryptedRefreshToken oauthScopes
        (refreshAuthority principal.entraTenantId r.tenantCookie) s with
    | .error rejection => (.error rejection, s)
    | .ok (identity, s') =>
      match w.encodeSession (sessionClaims identity) with
      | .error rejection => (.error rejection, s')
      | .ok token => (.ok (principal, identity, token), s')

/-- The cookies of the answer to a callback that signs in. -/
def callbackHeaders (d : Deployment) (token : String) : List (SetCookie String String) :=
  [.keep d.cookieName token (d.session.ttlSeconds * second), .delete stateCookie, .delete verifierCookie,
    .delete tenantCookie]

/-- The cookies of the answer to a logout. -/
def logoutHeaders (d : Deployment) : List (SetCookie String String) := [.delete d.cookieName]

/-! ### The system -/

/-- A login a browser began. -/
structure Attempt where
  time : Nat
  state : String
  verifier : String
  tenant : Option Uuid

/-- A callback that signed in. -/
structure Acceptance where
  time : Nat
  code : String
  state : String
  principal : TokenPrincipal
  identity : ResolvedIdentity
  token : String

inductive Event where
  | began (browser : Nat) (a : Attempt)
  | accepted (browser : Nat) (x : Acceptance)
  | ended (browser : Nat)

structure State where
  now : Nat
  jars : Nat → Jar String String
  grants : List Grant
  store : Store
  /-- What happened, the latest first. -/
  log : List Event

def initial (now : Nat) : State := ⟨now, fun _ => CookieJar.empty, [], .empty, []⟩

/-- The states drawn so far. -/
def begun : List Event → List String
  | [] => []
  | .began _ a :: rest => a.state :: begun rest
  | .accepted _ _ :: rest | .ended _ :: rest => begun rest

/-- The states accepted so far. -/
def acceptedStates : List Event → List String
  | [] => []
  | .accepted _ x :: rest => x.state :: acceptedStates rest
  | .began _ _ :: rest | .ended _ :: rest => acceptedStates rest

/-- The last login of the browser, unless a callback was accepted after it. -/
def pending (browser : Nat) : List Event → Option Attempt
  | [] => none
  | .began b a :: rest => if b = browser then some a else pending browser rest
  | .accepted b _ :: rest => if b = browser then none else pending browser rest
  | .ended _ :: rest => pending browser rest

/-- As whom the browser is signed in. -/
def session (browser : Nat) : List Event → Option Acceptance
  | [] => none
  | .accepted b x :: rest => if b = browser then some x else session browser rest
  | .ended b :: rest => if b = browser then none else session browser rest
  | .began _ _ :: rest => session browser rest

/-- The request a browser makes for a callback URL. -/
def callbackRequest (jar : Jar String String) (now : Nat) (code state : String) : CallbackRequest where
  code := code
  state := state
  stateCookie := jar.send now stateCookie
  verifierCookie := jar.send now verifierCookie
  tenantCookie := jar.send now tenantCookie

def State.request (s : State) (browser : Nat) (code state : String) : CallbackRequest :=
  callbackRequest (s.jars browser) s.now code state

/-- A browser gets the cookies of an answer. -/
def State.respond (s : State) (browser : Nat) (headers : List (SetCookie String String)) : State :=
  {s with jars := Function.update s.jars browser ((s.jars browser).receive s.now headers)}

inductive Action where
  | wait (duration : Nat)
  /-- Somebody consents, for any challenge. -/
  | consent (g : Grant)
  | login (browser : Nat) (secrets : Secrets) (tenant : Option Uuid)
  /-- A browser follows a callback URL. -/
  | callback (browser : Nat) (code state : String) (host : Host)
  | logout (browser : Nat)
  /-- Anything else that writes the identity tables. -/
  | other (a : Identity.Action)

/-- The secrets of a login are new. -/
def step (d : Deployment) (a : Action) (s : State) : Option State :=
  match a with
  | .wait duration => some {s with now := s.now + duration}
  | .consent g => some {s with grants := g :: s.grants}
  | .login browser secrets tenant =>
    if tokenUrlsafe secrets.state ∈ begun s.log then none
    else match SignIn.login d secrets tenant with
      | .error _ => some s
      | .ok (_, headers) =>
        some {s.respond browser headers with
          log := .began browser ⟨s.now, tokenUrlsafe secrets.state, tokenUrlsafe secrets.verifier, tenant⟩ :: s.log}
  | .callback browser code state host =>
    match signIn (d.world s.now s.grants) host (s.request browser code state) s.store with
    | (.error _, store) => some {s with store := store}
    | (.ok (principal, identity, token), store) =>
      some {s.respond browser (callbackHeaders d token) with
        store := store
        log := .accepted browser ⟨s.now, code, state, principal, identity, token⟩ :: s.log}
  | .logout browser => some {s.respond browser (logoutHeaders d) with log := .ended browser :: s.log}
  | .other a =>
    match Identity.step a s.store with
    | none => none
    | some store => some {s with store := store}

/-- The session a profile read of a browser finds. -/
def State.read (d : Deployment) (s : State) (browser : Nat) (host : Host) :
    Except Rejection (ResolvedIdentity × Store) :=
  getIdentity (d.world s.now s.grants) host ((s.jars browser).send s.now d.cookieName) none s.store

/-- The endpoint, with what it tells besides. -/
theorem callback_eq (w : World) (host : Host) (r : CallbackRequest) (s : Store) :
    Identity.callback w host r s = (match (signIn w host r s).1 with
      | .error rejection => .rejected rejection
      | .ok (_, _, token) => .signedIn token, (signIn w host r s).2) := by
  unfold Identity.callback callbackTransaction signIn
  cases authorize w r with
  | error rejection => rfl
  | ok result =>
    obtain ⟨principal, encrypted⟩ := result
    simp only [bind, Except.bind]
    cases onboardOAuthUser host principal none encrypted oauthScopes
        (refreshAuthority principal.entraTenantId r.tenantCookie) s with
    | error rejection => rfl
    | ok result =>
      obtain ⟨identity, s'⟩ := result
      dsimp only
      cases w.encodeSession (sessionClaims identity) <;> rfl

end Sentinel.Identity.SignIn
