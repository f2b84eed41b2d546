import Sentinel.Identity.ClearTokens
import Sentinel.Identity.Profile
import Sentinel.Identity.SignIn

/-! What a sign-in proves.

The cookies of a browser are those of its last login until a callback is accepted, so a
callback is accepted only as the answer to that login, once, and with tokens Microsoft
issued for its challenge (`agreement`). And a session cookie resolves to the account that
signed in through this browser, while the session lasts and the account is active, and to
nobody else (`authentic`). -/
namespace Sentinel.Identity.SignIn
open Library Library.Fallible CookieJar Transition

/-! ### The log -/

/-- States are drawn once, and each is accepted at most once. -/
structure Tallied (log : List Event) : Prop where
  begun : (begun log).Nodup
  pending : ∀ b a, pending b log = some a → a.state ∈ SignIn.begun log ∧ a.state ∉ acceptedStates log
  apart : ∀ b c a a', SignIn.pending b log = some a → SignIn.pending c log = some a' → a.state = a'.state → b = c
  accepted : acceptedStates log ⊆ SignIn.begun log
  once : (acceptedStates log).Nodup

section Log
variable {log : List Event} {b : Nat}

theorem tallied_nil : Tallied [] where
  begun := List.nodup_nil
  pending := fun _ _ h => by simp [SignIn.pending] at h
  apart := fun _ _ _ _ h => by simp [SignIn.pending] at h
  accepted := List.Subset.refl _
  once := List.nodup_nil

theorem Tallied.began (h : Tallied log) {a : Attempt} (hnew : a.state ∉ SignIn.begun log) :
    Tallied (.began b a :: log) where
  begun := List.nodup_cons.mpr ⟨hnew, h.begun⟩
  pending := by
    intro c x hx
    unfold SignIn.pending at hx
    split_ifs at hx with hbc
    · cases hx
      exact ⟨List.mem_cons_self, fun hmem => hnew (h.accepted hmem)⟩
    · exact ⟨List.mem_cons_of_mem _ (h.pending c x hx).1, (h.pending c x hx).2⟩
  apart := by
    intro c c' x x' hx hx' heq
    unfold SignIn.pending at hx hx'
    split_ifs at hx hx' with hbc hbc' hbc'
    · exact hbc.symm.trans hbc'
    · cases hx
      exact absurd (heq ▸ (h.pending c' x' hx').1) hnew
    · cases hx'
      exact absurd (heq ▸ (h.pending c x hx).1) hnew
    · exact h.apart c c' x x' hx hx' heq
  accepted := fun _ hmem => List.mem_cons_of_mem _ (h.accepted hmem)
  once := h.once

/-- The state of the login that is pending is accepted. -/
theorem Tallied.accept (h : Tallied log) {a : Attempt} {x : Acceptance} (ha : SignIn.pending b log = some a)
    (hstate : x.state = a.state) : Tallied (.accepted b x :: log) where
  begun := h.begun
  pending := by
    intro c y hy
    unfold SignIn.pending at hy
    split_ifs at hy with hbc
    refine ⟨(h.pending c y hy).1, fun hmem => ?_⟩
    cases List.mem_cons.mp hmem with
    | inl heq => exact hbc (h.apart b c a y ha hy (hstate.symm.trans heq.symm))
    | inr hmem => exact (h.pending c y hy).2 hmem
  apart := by
    intro c c' y y' hy hy' heq
    unfold SignIn.pending at hy hy'
    split_ifs at hy hy'
    exact h.apart c c' y y' hy hy' heq
  accepted := by
    intro state hmem
    cases List.mem_cons.mp hmem with
    | inl heq => exact heq ▸ hstate ▸ (h.pending b a ha).1
    | inr hmem => exact h.accepted hmem
  once := List.nodup_cons.mpr ⟨hstate ▸ (h.pending b a ha).2, h.once⟩

theorem Tallied.ended (h : Tallied log) : Tallied (.ended b :: log) := ⟨h.begun, h.pending, h.apart, h.accepted, h.once⟩

end Log

/-! ### The cookies -/

/-- The jar holds the cookies of this login and of this session. -/
structure Holds (d : Deployment) (jar : Jar String String) (a : Option Attempt) (x : Option Acceptance) :
    Prop where
  state : jar stateCookie = a.map fun a => ⟨a.state, a.time + 600 * second⟩
  verifier : jar verifierCookie = a.map fun a => ⟨a.verifier, a.time + 600 * second⟩
  tenant : jar tenantCookie = a.bind fun a => a.tenant.map fun t => ⟨Uuid.str t, a.time + 600 * second⟩
  session : jar d.cookieName = x.map fun x => ⟨x.token, x.time + d.session.ttlSeconds * second⟩

/-- Every jar holds what the log says. -/
def Kept (d : Deployment) (jars : Nat → Jar String String) (log : List Event) : Prop :=
  ∀ b, Holds d (jars b) (pending b log) (session b log)

section Cookies
variable {d : Deployment} {s : State} {b : Nat} {jar : Jar String String} {a : Option Attempt} {x : Option Acceptance}

theorem cookieName_ne (d : Deployment) : d.cookieName ≠ stateCookie ∧ d.cookieName ≠ verifierCookie ∧
    d.cookieName ≠ tenantCookie := by
  simpa [oauthCookies] using d.cookieName_other

theorem cookies_distinct : stateCookie ≠ verifierCookie ∧ stateCookie ≠ tenantCookie ∧
    verifierCookie ≠ tenantCookie := by
  decide

theorem Holds.login (h : Holds d jar a x) (now : Nat) (state verifier : String) (tenant : Option Uuid) :
    Holds d (jar.receive now (loginHeaders state verifier tenant)) (some ⟨now, state, verifier, tenant⟩) x := by
  obtain ⟨hstate, hverifier, htenant⟩ := cookieName_ne d
  obtain ⟨h₁, h₂, h₃⟩ := cookies_distinct
  have hsession := h.session
  cases tenant <;> constructor <;>
    simp [loginHeaders, oauthCookie, Jar.set, SetCookie.name, SetCookie.cookie, hstate, hverifier, htenant, h₁, h₂, h₃,
      hsession]

theorem holds_callback (d : Deployment) (jar : Jar String String) (y : Acceptance) :
    Holds d (jar.receive y.time (callbackHeaders d y.token)) none (some y) := by
  obtain ⟨hstate, hverifier, htenant⟩ := cookieName_ne d
  obtain ⟨h₁, h₂, h₃⟩ := cookies_distinct
  constructor <;>
    simp [callbackHeaders, Jar.set, SetCookie.name, SetCookie.cookie, hstate, hverifier, htenant, h₁, h₂, h₃]

theorem Holds.logout (h : Holds d jar a x) (now : Nat) : Holds d (jar.receive now (logoutHeaders d)) a none := by
  obtain ⟨hstate, hverifier, htenant⟩ := cookieName_ne d
  constructor
  · simpa [logoutHeaders, Jar.set, SetCookie.name, hstate.symm] using h.state
  · simpa [logoutHeaders, Jar.set, SetCookie.name, hverifier.symm] using h.verifier
  · simpa [logoutHeaders, Jar.set, SetCookie.name, htenant.symm] using h.tenant
  · simp [logoutHeaders, Jar.set, SetCookie.name, SetCookie.cookie]

theorem kept_initial (d : Deployment) (now : Nat) : Kept d (initial now).jars [] := fun _ => ⟨rfl, rfl, rfl, rfl⟩

/-- An answer to one browser, and what is logged of it. -/
theorem Kept.respond (h : Kept d s.jars s.log) {headers : List (SetCookie String String)} {log : List Event}
    (hown : Holds d ((s.jars b).receive s.now headers) (pending b log) (SignIn.session b log))
    (hothers : ∀ c, b ≠ c → pending c log = pending c s.log ∧ SignIn.session c log = SignIn.session c s.log) :
    Kept d (s.respond b headers).jars log := by
  intro c
  show Holds d (Function.update s.jars b ((s.jars b).receive s.now headers) c) _ _
  by_cases hbc : b = c
  · subst hbc
    rw [Function.update_self]
    exact hown
  · rw [Function.update_of_ne (Ne.symm hbc), (hothers c hbc).1, (hothers c hbc).2]
    exact h c

end Cookies

/-! ### A callback that is accepted -/

/-- The code is one somebody got for the challenge, and its tokens are the principal's. -/
def Consented (d : Deployment) (grants : List Grant) (code challenge : String) (p : TokenPrincipal) : Prop :=
  ∃ g ∈ grants, g.code = code ∧ g.challenge = challenge ∧
    ∃ idToken, textOf (g.tokens.get "id_token") = some idToken ∧ d.base.validate idToken d.oauth.clientId = .ok p

/-- The callback answers the login: it came in time with its state, with a code consented to
for its challenge, and signs in an account of the tenant it asked for. -/
structure Answers (d : Deployment) (grants : List Grant) (x : Acceptance) (a : Attempt) : Prop where
  state : x.state = a.state
  time : x.time < a.time + 600 * second
  consented : Consented d grants x.code (pkceChallenge a.verifier) x.principal
  tenant : ∀ tenant ∈ a.tenant, tenant = x.principal.entraTenantId

section Callback
variable {d : Deployment} {s : State} {b : Nat} {jar : Jar String String} {a : Option Attempt} {attempt : Attempt}
  {x : Option Acceptance} {code state : String} {host : Host} {p : TokenPrincipal} {identity : ResolvedIdentity}
  {token : String} {store : Store}

theorem present_eq_some {value : Option String} {text : String} (h : present value = some text) :
    value = some text ∧ text ≠ "" := by
  obtain ⟨hvalue, htext⟩ := Option.filter_eq_some_iff.mp h
  exact ⟨hvalue, by simpa using htext⟩

theorem eq_of_compareDigest {s t : String} (h : compareDigest s t = .ok true) : s = t := by
  unfold compareDigest at h
  split_ifs at h
  exact of_decide_eq_true (Except.ok.inj h)

theorem str_ne_empty (u : Uuid) : Uuid.str u ≠ "" := by
  intro h
  have hlength := congrArg (fun s : String => s.toList.length) h
  simp [Uuid.str, Uuid.hyphenate] at hlength

theorem signIn_eq_ok {w : World} {r : CallbackRequest} {s s' : Store}
    (h : signIn w host r s = (.ok (p, identity, token), s')) :
    ∃ encrypted, Admits w r p encrypted ∧ onboardOAuthUser host p none encrypted oauthScopes
        (refreshAuthority p.entraTenantId r.tenantCookie) s = .ok (identity, s') ∧
      w.encodeSession (sessionClaims identity) = .ok token := by
  unfold signIn at h
  split at h
  · cases h
  · rename_i principal encrypted hauthorize
    split at h
    · cases h
    · rename_i identity' s₁ honboard
      split at h
      · cases h
      · rename_i token' hencode
        cases h
        exact ⟨encrypted, authorize_eq_ok_iff.mp hauthorize, honboard, hencode⟩

/-- A name that was sent is the login's. -/
theorem Holds.sent {name value : String} {text : Attempt → String} {now : Nat}
    (hname : jar name = a.map fun a => ⟨text a, a.time + 600 * second⟩)
    (h : present (jar.send now name) = some value) :
    ∃ attempt, a = some attempt ∧ value = text attempt ∧ now < attempt.time + 600 * second := by
  obtain ⟨c, hc, htime, hvalue⟩ := send_eq_some.mp (present_eq_some h).1
  rw [hname] at hc
  obtain ⟨attempt, hattempt, rfl⟩ := Option.map_eq_some_iff.mp hc
  exact ⟨attempt, hattempt, hvalue.symm, htime⟩

/-- The tenant asked for is sent as long as the state is. -/
theorem Holds.sent_tenant (h : Holds d jar (some attempt) x) {tenant : Uuid} (hasked : attempt.tenant = some tenant)
    {now : Nat} (htime : now < attempt.time + 600 * second) :
    present (jar.send now tenantCookie) = some (Uuid.str tenant) := by
  have hcookie : jar.send now tenantCookie = some (Uuid.str tenant) :=
    send_eq_some.mpr ⟨⟨Uuid.str tenant, attempt.time + 600 * second⟩,
      by rw [h.tenant, Option.bind_some, hasked, Option.map_some], htime, rfl⟩
  rw [hcookie]
  exact Option.filter_eq_some_iff.mpr ⟨rfl, decide_eq_true (str_ne_empty tenant)⟩

theorem lookup_codeFields (d : Deployment) (clientId clientSecret code verifier : String) :
    (codeFields d.oauth clientId clientSecret code verifier).lookup "code" = some code ∧
      (codeFields d.oauth clientId clientSecret code verifier).lookup "code_verifier" = some verifier := by
  simp [codeFields, List.lookup]

/-- A request with the cookies in the jar when it was sent, which may be earlier. -/
theorem answers_of_signIn {sent now : Nat} {grants : List Grant} {before : Store} (hjar : Holds d jar a x)
    (h : signIn (d.world now grants) host (callbackRequest jar sent code state) before =
      (.ok (p, identity, token), store)) :
    ∃ attempt, a = some attempt ∧ Answers d grants ⟨sent, code, state, p, identity, token⟩ attempt := by
  obtain ⟨encrypted, hadmits, -, -⟩ := signIn_eq_ok h
  obtain ⟨expected, verifier, tokens, idToken, accessToken, refreshToken, hexpected, hcompare, hverifier, hexchange,
    hid, -, -, hvalidate, htenant, -⟩ := hadmits
  obtain ⟨attempt, rfl, rfl, htime⟩ := Holds.sent hjar.state hexpected
  obtain ⟨attempt', hattempt, rfl, -⟩ := Holds.sent hjar.verifier hverifier
  obtain rfl : attempt = attempt' := Option.some.inj hattempt
  obtain ⟨clientId, clientSecret, reply, hpost, hstatus, rfl⟩ := exchangeCode_eq_ok hexchange
  obtain ⟨hcode, hsecret⟩ := lookup_codeFields d clientId clientSecret code attempt.verifier
  obtain ⟨g, hg, hgcode, hchallenge, hbody⟩ := d.redeems _ _ _ _ _ _ hpost hstatus hcode hsecret
  exact
    ⟨attempt, rfl,
      { state := (eq_of_compareDigest hcompare).symm
        time := htime
        consented := ⟨g, hg, hgcode, hchallenge, idToken, hbody ▸ hid, hvalidate⟩
        tenant := fun tenant hasked => Uuid.str_inj (htenant _ (hjar.sent_tenant hasked htime)) }⟩

end Callback

/-! ### The rows of who signed in -/

/-- The account that signed in has a row of its own Entra tenant and object id. -/
structure Registered (x : Acceptance) (s : Store) : Prop where
  tenant : ∃ t ∈ s.tenants, t.id = x.identity.tenant.id ∧ t.entraTenantId = x.principal.entraTenantId
  user : ∃ u ∈ s.users, u.id = x.identity.user.id ∧ u.key = (x.identity.tenant.id, x.principal.entraObjectId)

section Rows
variable {s s' : Store} {x : Acceptance}

theorem Registered.mono (h : Registered x s) (hs : Extends s s') : Registered x s' where
  tenant := by
    obtain ⟨t, ht, hid, hentra⟩ := h.tenant
    obtain ⟨t', ht', hid', hentra', -⟩ := hs.tenants t ht
    exact ⟨t', ht', hid'.trans hid, hentra'.trans hentra⟩
  user := by
    obtain ⟨u, hu, hid, hkey⟩ := h.user
    obtain ⟨u', hu', hid', hkey'⟩ := hs.users u hu
    exact ⟨u', hu', hid'.trans hid, hkey'.trans hkey⟩

theorem registered_of_onboard {host : Host} {p : TokenPrincipal} {name : Option String}
    {encrypted authority : String} {scopes : List String} {identity : ResolvedIdentity} (h : Keyed s)
    (honboard : onboardOAuthUser host p name encrypted scopes authority s = .ok (identity, s')) (hp : x.principal = p)
    (hidentity : x.identity = identity) : Registered x s' := by
  obtain ⟨ht, hscope, hu, hkey⟩ := onboardOAuthUser_account honboard
  obtain ⟨oid, hoid⟩ := writes_keep (fun _ _ => keyed_write) h (onboardOAuthUser_writes honboard) identity.tenant ht
  subst hp hidentity
  exact ⟨⟨_, ht, rfl, (identityScopeKey_eq_iff.mp (hoid.symm.trans hscope)).1⟩, ⟨_, hu, rfl, hkey⟩⟩

end Rows

/-! ### The invariant -/

structure Inv (d : Deployment) (s : State) : Prop where
  tallied : Tallied s.log
  kept : Kept d s.jars s.log
  keyed : Keyed s.store
  answered : ∀ newer b x older, s.log = newer ++ .accepted b x :: older →
    ∃ a, pending b older = some a ∧ Answers d s.grants x a
  registered : ∀ b x, .accepted b x ∈ s.log → Registered x s.store
  encoded : ∀ b x, .accepted b x ∈ s.log →
    encodeSession d.session d.tokens x.time (sessionClaims x.identity) = .ok x.token

section Inv
variable {d : Deployment} {s : State}

theorem Answers.mono {grants grants' : List Grant} {x : Acceptance} {a : Attempt} (h : Answers d grants x a)
    (hgrants : grants ⊆ grants') : Answers d grants' x a := by
  obtain ⟨g, hg, hconsent⟩ := h.consented
  exact ⟨h.state, h.time, ⟨g, hgrants hg, hconsent⟩, h.tenant⟩

/-- An event that is no acceptance leaves the older ones. -/
theorem answered_cons {P : Nat → Acceptance → List Event → Prop} {e : Event} {log : List Event}
    (h : ∀ newer b x older, log = newer ++ .accepted b x :: older → P b x older)
    (hhead : ∀ b x, e = .accepted b x → P b x log) :
    ∀ newer b x older, e :: log = newer ++ .accepted b x :: older → P b x older := by
  intro newer b x older heq
  cases newer with
  | nil =>
    obtain ⟨rfl, rfl⟩ := List.cons.inj heq
    exact hhead b x rfl
  | cons e' newer =>
    obtain ⟨-, hrest⟩ := List.cons.inj heq
    exact h newer b x older hrest

/-- The tables change, and nothing else. -/
theorem Inv.store (h : Inv d s) {store : Store} (hwrites : Writes s.store store) : Inv d {s with store := store} where
  tallied := h.tallied
  kept := h.kept
  keyed := writes_keep (fun _ _ => keyed_write) h.keyed hwrites
  answered := h.answered
  registered := fun b x hx => (h.registered b x hx).mono (writes_extends hwrites)
  encoded := h.encoded

theorem inv_initial (d : Deployment) (now : Nat) : Inv d (initial now) where
  tallied := tallied_nil
  kept := kept_initial d now
  keyed := keyed_empty
  answered := by simp [initial]
  registered := by simp [initial]
  encoded := by simp [initial]

theorem Inv.login (h : Inv d s) (b : Nat) {state verifier : String} (tenant : Option Uuid)
    (hnew : state ∉ begun s.log) :
    Inv d {s.respond b (loginHeaders state verifier tenant) with
      log := .began b ⟨s.now, state, verifier, tenant⟩ :: s.log} where
  tallied := h.tallied.began hnew
  kept := by
    refine h.kept.respond (b := b) ?_ fun c hbc => ⟨if_neg hbc, rfl⟩
    rw [show pending b (.began b ⟨s.now, state, verifier, tenant⟩ :: s.log) = some ⟨s.now, state, verifier, tenant⟩
      from if_pos rfl]
    exact (h.kept b).login s.now state verifier tenant
  keyed := h.keyed
  answered := answered_cons h.answered fun c x hx => by cases hx
  registered := fun c x hx => h.registered c x (by simpa using hx)
  encoded := fun c x hx => h.encoded c x (by simpa using hx)

theorem Inv.logout (h : Inv d s) (b : Nat) :
    Inv d {s.respond b (logoutHeaders d) with log := .ended b :: s.log} where
  tallied := h.tallied.ended
  kept := by
    refine h.kept.respond (b := b) ?_ fun c hbc => ⟨rfl, if_neg hbc⟩
    rw [show SignIn.session b (.ended b :: s.log) = none from if_pos rfl]
    exact (h.kept b).logout s.now
  keyed := h.keyed
  answered := answered_cons h.answered fun c x hx => by cases hx
  registered := fun c x hx => h.registered c x (by simpa using hx)
  encoded := fun c x hx => h.encoded c x (by simpa using hx)

theorem Inv.callback (h : Inv d s) {b : Nat} {code state : String} {host : Host} {p : TokenPrincipal}
    {identity : ResolvedIdentity} {token : String} {store : Store}
    (hsign : signIn (d.world s.now s.grants) host (s.request b code state) s.store =
      (.ok (p, identity, token), store)) :
    Inv d {s.respond b (callbackHeaders d token) with
      store := store
      log := .accepted b ⟨s.now, code, state, p, identity, token⟩ :: s.log} := by
  obtain ⟨attempt, hpending, hanswers⟩ := answers_of_signIn (h.kept b) hsign
  obtain ⟨encrypted, -, honboard, hencode⟩ := signIn_eq_ok hsign
  have hwrites := onboardOAuthUser_writes honboard
  refine ⟨h.tallied.accept hpending hanswers.state, ?_, ?_, ?_, ?_, ?_⟩
  · refine h.kept.respond (b := b) ?_ fun c hbc => ⟨if_neg hbc, if_neg hbc⟩
    rw [show pending b (.accepted b ⟨s.now, code, state, p, identity, token⟩ :: s.log) = none from if_pos rfl,
      show SignIn.session b (.accepted b ⟨s.now, code, state, p, identity, token⟩ :: s.log) =
        some ⟨s.now, code, state, p, identity, token⟩ from if_pos rfl]
    exact holds_callback d (s.jars b) ⟨s.now, code, state, p, identity, token⟩
  · exact writes_keep (fun _ _ => keyed_write) h.keyed hwrites
  · refine answered_cons h.answered fun c x hx => ?_
    cases hx
    exact ⟨attempt, hpending, hanswers⟩
  · intro c x hx
    cases List.mem_cons.mp hx with
    | inl heq =>
      cases heq
      exact registered_of_onboard h.keyed honboard rfl rfl
    | inr hx => exact (h.registered c x hx).mono (writes_extends hwrites)
  · intro c x hx
    cases List.mem_cons.mp hx with
    | inl heq =>
      cases heq
      exact hencode
    | inr hx => exact h.encoded c x hx

theorem signIn_writes (w : World) (host : Host) (r : CallbackRequest) (s : Store) :
    Writes s (signIn w host r s).2 := by
  have hwrites : Writes s (Identity.callback w host r s).2 := handle_writes w host (.callback r) s
  rwa [callback_eq] at hwrites

theorem login_eq_ok {secrets : Secrets} {tenant : Option Uuid} {url : String}
    {headers : List (SetCookie String String)} (h : SignIn.login d secrets tenant = .ok (url, headers)) :
    headers = loginHeaders (tokenUrlsafe secrets.state) (tokenUrlsafe secrets.verifier) tenant := by
  obtain ⟨url', -, h⟩ := bind_eq_ok.mp h
  exact (Prod.mk.inj (Except.ok.inj h)).2.symm

/-- A step changes the tables by statements of the identity service. -/
theorem step_writes {a : Action} {s' : State} (hstep : step d a s = some s') : Writes s.store s'.store := by
  cases a with
  | wait duration | consent g | logout b =>
    cases hstep
    exact .refl
  | login b secrets tenant =>
    simp only [step] at hstep
    split_ifs at hstep
    split at hstep <;>
      · cases hstep
        exact .refl
  | callback b code state host =>
    have hwrites := signIn_writes (d.world s.now s.grants) host (s.request b code state) s.store
    simp only [step] at hstep
    split at hstep <;> rename_i hsign <;>
      · cases hstep
        rw [hsign] at hwrites
        exact hwrites
  | other a =>
    simp only [step] at hstep
    split at hstep
    · cases hstep
    · rename_i hother
      cases hstep
      exact Identity.step_writes hother

theorem inv_step {a : Action} {s' : State} (h : Inv d s) (hstep : step d a s = some s') : Inv d s' := by
  cases a with
  | wait duration =>
    cases hstep
    exact {h with}
  | consent g =>
    cases hstep
    refine {h with answered := fun newer b x older hlog => ?_}
    obtain ⟨attempt, hpending, hanswers⟩ := h.answered newer b x older hlog
    exact ⟨attempt, hpending, hanswers.mono (List.subset_cons_self _ _)⟩
  | login b secrets tenant =>
    simp only [step] at hstep
    split_ifs at hstep with hnew
    split at hstep
    · cases hstep
      exact h
    · rename_i url headers hlogin
      cases hstep
      rw [login_eq_ok hlogin]
      exact h.login b tenant hnew
  | callback b code state host =>
    have hwrites := signIn_writes (d.world s.now s.grants) host (s.request b code state) s.store
    simp only [step] at hstep
    split at hstep
    · rename_i store hsign
      cases hstep
      rw [hsign] at hwrites
      exact h.store hwrites
    · rename_i p identity token store hsign
      cases hstep
      exact h.callback hsign
  | logout b =>
    cases hstep
    exact h.logout b
  | other a =>
    simp only [step] at hstep
    split at hstep
    · cases hstep
    · rename_i store hother
      cases hstep
      exact h.store (Identity.step_writes hother)

end Inv

/-! ### A small deployment -/

/-- A token endpoint that redeems each code for its verifier, as often as asked. -/
def redeem (grants : List Grant) (_ : String) (data : List (String × String)) : Except Rejection Reply :=
  match grants.find? fun g => data.lookup "code" = some g.code ∧
      (data.lookup "code_verifier").map pkceChallenge = some g.challenge with
  | some g => .ok ⟨200, g.tokens⟩
  | none => .error (.provider (.str "invalid_grant"))

def sampleDeployment : Deployment where
  base := sampleWorld
  oauth := ⟨some "client", some "secret", "http://localhost:8080/auth/callback", "https://login.microsoftonline.com"⟩
  session := ⟨some "key", 28800⟩
  tokens := .clear
  cookieName := "sentinel_session"
  cookieName_other := by decide
  tokenEndpoint := redeem
  redeems := by
    intro grants url data reply code verifier hreply _ hcode hverifier
    unfold redeem at hreply
    split at hreply
    · rename_i g hfind
      cases hreply
      have hmatch := List.find?_some hfind
      rw [hcode, hverifier, decide_eq_true_eq] at hmatch
      exact ⟨g, List.mem_of_find?_eq_some hfind, (Option.some.inj hmatch.1).symm, (Option.some.inj hmatch.2).symm, rfl⟩
    · cases hreply

theorem sampleTokens_wellFormed : Json.WellFormed (.obj
    [("id_token", .str "id"), ("access_token", .str "access"), ("refresh_token", .str "refresh")]) := by
  simp [Json.WellFormed]

/-- The service starts, somebody signs in, and goes on for an hour. -/
def sampleSignIn : List Action :=
  [.other (.bootstrap sampleHost samplePermissionIds (sampleSettings none none)),
   .login 0 ⟨[0], [1]⟩ none,
   .consent ⟨"code", pkceChallenge (tokenUrlsafe [1]), ⟨[("id_token", .str "id"), ("access_token", .str "access"),
     ("refresh_token", .str "refresh")], sampleTokens_wellFormed⟩⟩,
   .callback 0 "code" (tokenUrlsafe [0]) sampleHost,
   .wait 3600000000]

/-- At its end the browser has a session, for the account `identity`. -/
structure SignedIn (s : State) (x : Acceptance) (identity : ResolvedIdentity) : Prop where
  session : session 0 s.log = some x
  good : Good sampleDeployment.session x.time s.now
  resolved : resolveSession sampleHost x.identity.tenant.id x.identity.user.id s.store = .ok identity

theorem signedIn_sample : ∃ s x identity,
    run (step sampleDeployment) sampleSignIn (initial 0) = some s ∧ SignedIn s x identity := by
  have hsigned : (run (step sampleDeployment) sampleSignIn (initial 0)).any (fun s => (SignIn.session 0 s.log).any fun x =>
      Good sampleDeployment.session x.time s.now ∧
        (resolveSession sampleHost x.identity.tenant.id x.identity.user.id s.store).toOption.isSome) = true := by
    decide +kernel
  obtain ⟨s, hrun, hs⟩ := (Option.any_eq_true _ _).mp hsigned
  obtain ⟨x, hx, hboth⟩ := (Option.any_eq_true _ _).mp hs
  obtain ⟨hgood, hresolved⟩ := of_decide_eq_true hboth
  obtain ⟨identity, hidentity⟩ := Option.isSome_iff_exists.mp hresolved
  exact ⟨s, x, identity, hrun, hx, hgood, toOption_eq_some.mp hidentity⟩

/-! ### The results -/

/-- Each callback that was accepted answers the login its browser had pending, and no state
is accepted twice. -/
def Agreement (d : Deployment) (s : State) : Prop :=
  (∀ newer b x older, s.log = newer ++ .accepted b x :: older →
    ∃ a, pending b older = some a ∧ Answers d s.grants x a) ∧
    (acceptedStates s.log).Nodup

/-- Whoever writes the callback URLs, and in whatever order browsers follow them. -/
theorem agreement (d : Deployment) (now : Nat) (actions : List Action) :
    Always (step d) (Agreement d) actions (initial now) :=
  (Always.of_invariant actions (inv_initial d now) fun _ _ _ => inv_step).mono
    fun _ h => ⟨h.answered, h.tallied.once⟩

theorem agreement_sample : ∃ s x, run (step sampleDeployment) sampleSignIn (initial 0) = some s ∧
    session 0 s.log = some x ∧ Agreement sampleDeployment s := by
  obtain ⟨s, x, identity, hrun, hsigned⟩ := signedIn_sample
  exact ⟨s, x, hrun, hsigned.session, (agreement sampleDeployment 0 sampleSignIn).last hrun⟩

/-- The identity is that of the account that signed in, and the account is active. -/
structure IsOf (host : Host) (s : Store) (x : Acceptance) (identity : ResolvedIdentity) : Prop
    extends Current host s identity where
  tenantId : identity.tenant.id = x.identity.tenant.id
  entraTenantId : identity.tenant.entraTenantId = x.principal.entraTenantId
  userId : identity.user.id = x.identity.user.id
  entraObjectId : identity.user.entraObjectId = x.principal.entraObjectId

/-- A browser is taken for the account that signed in through it, while that sign-in is good
and not ended, and for nobody else. -/
def Authentic (d : Deployment) (s : State) : Prop :=
  ∀ b host identity store, s.read d b host = .ok (identity, store) ↔
    store = s.store ∧ ∃ x, session b s.log = some x ∧ Good d.session x.time s.now ∧ IsOf host s.store x identity

section Authentic
variable {d : Deployment} {s : State} {x : Acceptance}

theorem mem_of_session {b : Nat} {log : List Event} (h : session b log = some x) : .accepted b x ∈ log := by
  induction log with
  | nil => cases h
  | cons e rest ih =>
    cases e with
    | began c a => exact List.mem_cons_of_mem _ (ih h)
    | accepted c y =>
      unfold session at h
      split_ifs at h with hbc
      · cases h
        exact hbc ▸ List.mem_cons_self
      · exact List.mem_cons_of_mem _ (ih h)
    | ended c =>
      unfold session at h
      split_ifs at h
      exact List.mem_cons_of_mem _ (ih h)

theorem Registered.resolve_eq_ok_iff {host : Host} {store : Store} {identity : ResolvedIdentity}
    (h : Registered x store) :
    resolveSession host x.identity.tenant.id x.identity.user.id store = .ok identity ↔ IsOf host store x identity := by
  obtain ⟨t, ht, htid, hentra⟩ := h.tenant
  obtain ⟨u, hu, huid, hkey⟩ := h.user
  obtain ⟨hut, huo⟩ := Prod.mk.inj hkey
  rw [← htid, ← huid, resolveSession_eq_ok_iff ht hu (hut.trans htid.symm)]
  constructor
  · rintro ⟨hcurrent, htid', huid'⟩
    have hteq : identity.tenant = t := store.tenantIds.eq hcurrent.tenant ht htid'
    have hueq : identity.user = u := store.userIds.eq hcurrent.user hu huid'
    exact ⟨hcurrent, htid'.trans htid, hteq ▸ hentra, huid'.trans huid, hueq ▸ huo⟩
  · intro hof
    exact ⟨hof.toCurrent, hof.tenantId.trans htid.symm, hof.userId.trans huid.symm⟩

/-- The cookie lasts at least as long as the token in it. -/
theorem Good.expires {settings : SessionSettings} {now later : Nat} (h : Good settings now later) :
    (later : Int) < now + settings.ttlSeconds * second := by
  have hnow : unixSeconds now * second ≤ now := Int.ediv_mul_le _ (by decide)
  calc (later : Int) < (unixSeconds now + settings.ttlSeconds) * second := h.2
    _ = unixSeconds now * second + settings.ttlSeconds * second := add_mul _ _ _
    _ ≤ now + settings.ttlSeconds * second := by gcongr

/-- The token a browser sends is that of its session, and it is a text. -/
theorem Inv.sent (h : Inv d s) {b : Nat} {token : String} (hsend : (s.jars b).send s.now d.cookieName = some token) :
    present (some token) = some token ∧ ∃ x, session b s.log = some x ∧ x.token = token := by
  obtain ⟨c, hc, -, rfl⟩ := send_eq_some.mp hsend
  rw [(h.kept b).session] at hc
  obtain ⟨x, hsession, rfl⟩ := Option.map_eq_some_iff.mp hc
  obtain ⟨key, -, hencode⟩ := bind_eq_ok.mp (h.encoded b x (mem_of_session hsession))
  have hne : x.token ≠ "" := fun hempty => d.tokens.encode_ne_empty _ _ (hempty ▸ hencode)
  exact ⟨Option.filter_eq_some_iff.mpr ⟨rfl, decide_eq_true hne⟩, x, hsession, rfl⟩

/-- Nobody is signed in, or no longer. -/
theorem Inv.read_ended (h : Inv d s) {b : Nat} (hended : ∀ x, session b s.log = some x → ¬ Good d.session x.time s.now)
    (host : Host) : ∃ rejection, s.read d b host = .error rejection := by
  unfold State.read getIdentity
  cases hsend : (s.jars b).send s.now d.cookieName with
  | none => exact ⟨_, rfl⟩
  | some token =>
    obtain ⟨hpresent, x, hsession, rfl⟩ := h.sent hsend
    have hdecode := decodeSession_encodeSession (h.encoded b x (mem_of_session hsession)) s.now
    rw [if_neg (hended x hsession)] at hdecode
    refine ⟨invalidSession, ?_⟩
    rw [hpresent]
    show Except.bind (decodeSession d.session d.tokens s.now x.token) _ = _
    rw [hdecode]
    rfl

/-- Somebody is. -/
theorem Inv.read_good (h : Inv d s) {b : Nat} (hsession : session b s.log = some x)
    (hgood : Good d.session x.time s.now) (host : Host) : s.read d b host =
      (resolveSession host x.identity.tenant.id x.identity.user.id s.store).map fun identity =>
        (identity, s.store) := by
  have hdecode := decodeSession_encodeSession (h.encoded b x (mem_of_session hsession)) s.now
  rw [if_pos hgood] at hdecode
  have hsend : (s.jars b).send s.now d.cookieName = some x.token := by
    refine send_eq_some.mpr ⟨⟨x.token, x.time + d.session.ttlSeconds * second⟩, ?_, Good.expires hgood, rfl⟩
    rw [(h.kept b).session, hsession]
    rfl
  unfold State.read getIdentity
  rw [hsend, (h.sent hsend).1]
  show Except.bind (decodeSession d.session d.tokens s.now x.token) _ = _
  rw [hdecode]
  show Except.bind (resolveSession host x.identity.tenant.id x.identity.user.id s.store) _ = _
  cases resolveSession host x.identity.tenant.id x.identity.user.id s.store <;> rfl

theorem authentic_of_inv (h : Inv d s) : Authentic d s := by
  intro b host identity store
  constructor
  · intro hread
    by_cases hended : ∀ x, session b s.log = some x → ¬ Good d.session x.time s.now
    · obtain ⟨rejection, hrejected⟩ := h.read_ended hended host
      rw [hrejected] at hread
      cases hread
    · push Not at hended
      obtain ⟨x, hsession, hgood⟩ := hended
      rw [h.read_good hsession hgood host] at hread
      obtain ⟨identity', hresolve, heq⟩ := map_eq_ok.mp hread
      cases heq
      exact ⟨rfl, x, hsession, hgood,
        (h.registered b x (mem_of_session hsession)).resolve_eq_ok_iff.mp hresolve⟩
  · rintro ⟨rfl, x, hsession, hgood, hof⟩
    rw [h.read_good hsession hgood host,
      (h.registered b x (mem_of_session hsession)).resolve_eq_ok_iff.mpr hof]
    rfl

end Authentic

theorem authentic (d : Deployment) (now : Nat) (actions : List Action) :
    Always (step d) (Authentic d) actions (initial now) :=
  (Always.of_invariant actions (inv_initial d now) fun _ _ _ => inv_step).mono fun _ h => authentic_of_inv h

theorem authentic_sample : ∃ s x identity, run (step sampleDeployment) sampleSignIn (initial 0) = some s ∧
    session 0 s.log = some x ∧ IsOf sampleHost s.store x identity := by
  obtain ⟨s, x, identity, hrun, hsigned⟩ := signedIn_sample
  have hinv : Inv sampleDeployment s :=
    (Always.of_invariant sampleSignIn (inv_initial sampleDeployment 0) fun _ _ _ => inv_step).last hrun
  have hread : s.read sampleDeployment 0 sampleHost = .ok (identity, s.store) := by
    rw [hinv.read_good hsigned.session hsigned.good, hsigned.resolved]
    rfl
  obtain ⟨-, y, hy, -, hof⟩ :=
    ((authentic sampleDeployment 0 sampleSignIn).last hrun 0 sampleHost identity s.store).mp hread
  exact ⟨s, y, identity, hrun, hy, hof⟩

end Sentinel.Identity.SignIn
