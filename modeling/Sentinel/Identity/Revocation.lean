import Sentinel.Identity.Bootstrap
import Sentinel.Library.Fallible

/-! Which requests of a revoked user the service still answers.

A user is revoked when the tenant is not active or the user is switched off. Profile reads
stop then. The callback looks at neither flag, and the token endpoint not at the tenant
(`closed_iff`). -/
namespace Sentinel.Identity
open Library Library.Fallible

def Revoked (t : Tenant) (u : User) : Prop := t.status ≠ .active ∨ u.isActive = false

/-- The account is the one of the user. -/
def SignsInAs (p : TokenPrincipal) (t : Tenant) (u : User) : Prop :=
  identityScopeKey p.entraTenantId p.entraObjectId = t.identityScopeKey ∧ p.entraObjectId = u.entraObjectId

/-- The request is turned away, and nothing is written. -/
def Closed (w : World) (host : Host) (s : Store) (r : Request) : Prop :=
  ∃ rejection, handle w host r s = (.rejected rejection, s)

/-- The callback passes the checks before its transaction. -/
def Admits (w : World) (r : CallbackRequest) (p : TokenPrincipal) (encrypted : String) : Prop :=
  ∃ expected verifier tokens idToken accessToken refreshToken,
    present r.stateCookie = some expected ∧ compareDigest expected r.state = .ok true ∧
    present r.verifierCookie = some verifier ∧
    w.exchangeCode r.code verifier r.tenantCookie = .ok tokens ∧
    textOf (tokens.get "id_token") = some idToken ∧
    textOf (tokens.get "access_token") = some accessToken ∧
    textOf (tokens.get "refresh_token") = some refreshToken ∧
    w.validate idToken w.microsoftClientId = .ok p ∧
    (∀ tenant ∈ present r.tenantCookie, tenant = Uuid.str p.entraTenantId) ∧
    w.encrypt refreshToken = .ok encrypted

/-- The name a callback gives the workspace, if it may have it. -/
def NameTaken (name : String) (t : Tenant) : Prop :=
  name = t.displayName ∨ Json.storableText name ∧ Store.nonempty name

/-- The role a callback needs exists, or can be made. -/
def RoleTaken (host : Host) (tenantId : Uuid) (name : String) (s : Store) : Prop :=
  (∃ r ∈ s.roles, r.tenantId = tenantId ∧ r.name = name) ∨
    host.roleId ∉ s.roles.map Role.id ∧ (tenantId, lowerName name) ∉ s.roles.map Role.key

/-- The connection exists or can be made, and takes the token. -/
def ConnectionTaken (host : Host) (tenantId userId : Uuid) (encrypted authority : String) (s : Store) : Prop :=
  [authority, encrypted].all Json.storableText ∧
    ((tenantId, userId, "microsoft") ∈ s.connections.map OAuthConnection.key ∨
      host.connectionId ∉ s.connections.map OAuthConnection.id)

/-- A personal workspace is named after its account. -/
def workspaceName (p : TokenPrincipal) : Option String :=
  if isPersonalAccount p.entraTenantId then some p.displayName else none

/-- The tables take what the callback writes for the user. -/
structure Takes (host : Host) (s : Store) (t : Tenant) (u : User) (p : TokenPrincipal)
    (encrypted authority : String) : Prop where
  tenant : NameTaken (orText (workspaceName p) t.displayName) t
  user : Store.takesUser p.displayName p.principalName
  role : RoleTaken host t.id "Reader" s
  connection : ConnectionTaken host t.id u.id encrypted authority s

/-- The token request is one the endpoint serves to a user. -/
def Served (w : World) (s : Store) (u : User) (r : TokenRequest) : Prop :=
  u.isActive ∧ ∃ expected, present w.internalApiToken = some expected ∧
    compareDigest (r.internalToken.getD "") expected = .ok true ∧
    ∃ connection ∈ s.connections, connection.key = (r.tenantId, r.userId, "microsoft") ∧
    ∃ refreshToken tokens accessToken expiresIn,
      w.decrypt connection.encryptedRefreshToken = .ok refreshToken ∧
      w.refresh refreshToken connection.tokenAuthority = .ok tokens ∧
      textOf (tokens.get "access_token") = some accessToken ∧
      (∀ rotated, textOf (tokens.get "refresh_token") = some rotated → ∃ encrypted,
        w.encrypt rotated = .ok encrypted ∧
          [connection.tokenAuthority, encrypted].all Json.storableText) ∧
      w.py.int ((tokens.get "expires_in").getD (.int 3600)) = some expiresIn

/-- The request is one of the user. -/
def IsFor (w : World) (t : Tenant) (u : User) : Request → Prop
  | .profile sessionCookie credentials =>
    match present sessionCookie with
    | some token => ∀ claims, w.decodeSession token = .ok claims →
        claims.tenantId = t.id ∧ claims.userId = u.id
    | none => ∀ text ∈ credentials, ∀ p, w.validate text none = .ok p → SignsInAs p t u
  | .callback r => ∀ p encrypted, Admits w r p encrypted → SignsInAs p t u
  | .token r => r.tenantId = t.id ∧ r.userId = u.id

/-- When a request of a revoked user is turned away. -/
def Shut (w : World) (host : Host) (s : Store) (t : Tenant) (u : User) : Request → Prop
  | .profile _ _ => True
  | .callback r => ¬ ∃ p encrypted, Admits w r p encrypted ∧
      Takes host s t u p encrypted (refreshAuthority p.entraTenantId r.tenantCookie)
  | .token r => ¬ Served w s u r

section Rows
variable {s : Store} {t : Tenant} {u : User}

theorem getUserById_of_mem (hu : u ∈ s.users) : getUserById u.tenantId u.id s = some u := by
  have hfind := s.userIds.find? hu rfl
  rw [getUserById, ← hfind]
  refine List.find?_congr fun q hq => ?_
  by_cases hid : q.id = u.id
  · simp [s.userIds.eq hq hu hid]
  · simp [hid]

/-- A session of a revoked user resolves to nothing. -/
theorem resolveSession_of_revoked (ht : t ∈ s.tenants) (hu : u ∈ s.users) (htenant : u.tenantId = t.id)
    (hrevoked : Revoked t u) (host : Host) :
    ∃ rejection, resolveSession host t.id u.id s = .error rejection := by
  rw [resolveSession, ← htenant, getUserById_of_mem hu]
  by_cases hactive : u.isActive
  · have hstatus : t.status ≠ .active := hrevoked.resolve_right (by simp [hactive])
    have hget : getTenantById u.tenantId s = some t := s.tenantIds.find? ht htenant.symm
    simp [hactive, hget, hstatus]
  · simp [hactive]

/-- Synchronizing a user that exists keeps the flag. -/
theorem synchronizeUser_of_mem (hu : u ∈ s.users) (host : Host) (displayName : String)
    (principalName : Option String) :
    synchronizeUser host u.tenantId u.entraObjectId displayName principalName s =
      if Store.takesUser displayName principalName then
        .ok (signedIn u.id displayName principalName host.lastLoginAt u,
          s.updateUsers (signedIn u.id displayName principalName host.lastLoginAt)
            (signedIn_id u.id displayName principalName host.lastLoginAt)
            (signedIn_key u.id displayName principalName host.lastLoginAt))
      else .error .refused := by
  have hget : getUser u.tenantId u.entraObjectId s = some u := s.userKeys.find? hu rfl
  rw [synchronizeUser, hget]

/-- A bearer token of a revoked user resolves to nothing. -/
theorem resolveAndSync_of_revoked (ht : t ∈ s.tenants) (hu : u ∈ s.users) (htenant : u.tenantId = t.id)
    (hrevoked : Revoked t u) {p : TokenPrincipal} (hp : SignsInAs p t u) (host : Host) :
    ∃ rejection, resolveAndSync host p s = .error rejection := by
  have hget : getTenantByScopeKey (identityScopeKey p.entraTenantId p.entraObjectId) s = some t :=
    s.scopeKeys.find? ht hp.1.symm
  rw [resolveAndSync, hget]
  by_cases hstatus : t.status = .active
  · have hactive : u.isActive = false := hrevoked.resolve_left (by simp [hstatus])
    have hsync := synchronizeUser_of_mem hu host p.displayName p.principalName
    rw [htenant, ← hp.2] at hsync
    simp only [hstatus, ne_eq, not_true_eq_false, if_false, hsync]
    split_ifs
    · exact ⟨_, by simp [statement, Except.mapError, signedIn, hactive]; rfl⟩
    · exact ⟨_, rfl⟩
  · simp [hstatus]

/-! ### The callback -/

theorem authorize_eq_ok_iff {w : World} {r : CallbackRequest} {p : TokenPrincipal} {encrypted : String} :
    authorize w r = .ok (p, encrypted) ↔ Admits w r p encrypted := by
  refine ⟨?_, ?_⟩
  · intro h
    unfold authorize at h
    split at h
    case h_1 => cases h
    case h_2 expected hexpected =>
      obtain ⟨matched, hcompare, h⟩ := bind_eq_ok.mp h
      cases matched with
      | false => cases h
      | true =>
        simp only [Bool.not_true, Bool.false_eq_true, if_false] at h
        split at h
        case h_1 => cases h
        case h_2 verifier hverifier =>
          obtain ⟨tokens, hexchange, h⟩ := bind_eq_ok.mp h
          split at h
          case h_2 => cases h
          case h_1 idToken accessToken refreshToken hid haccess hrefresh =>
            obtain ⟨principal, hvalidate, h⟩ := bind_eq_ok.mp h
            split_ifs at h with hmatch
            obtain ⟨encrypted', hencrypt, h⟩ := bind_eq_ok.mp h
            cases h
            refine ⟨expected, verifier, tokens, idToken, accessToken, refreshToken, hexpected, hcompare,
              hverifier, hexchange, hid, haccess, hrefresh, hvalidate, ?_, hencrypt⟩
            intro tenant htenant
            by_contra hne
            exact hmatch (by simp [Option.mem_def.mp htenant, hne])
  · intro h
    obtain ⟨expected, verifier, tokens, idToken, accessToken, refreshToken, hexpected, hcompare, hverifier,
      hexchange, hid, haccess, hrefresh, hvalidate, htenant, hencrypt⟩ := h
    have hmatch : ((present r.tenantCookie).any fun tenant => !decide (tenant = Uuid.str p.entraTenantId)) = false := by
      cases hcookie : present r.tenantCookie with
      | none => rfl
      | some tenant => simp [htenant tenant hcookie]
    simp [authorize, hexpected, hcompare, hverifier, hexchange, hid, haccess, hrefresh, hvalidate, hmatch,
      hencrypt, bind, Except.bind, pure, Except.pure]

theorem getOrCreateTenant_returns (ht : t ∈ s.tenants) (host : Host) (entraTenantId : Uuid)
    (accountType : AccountType) (displayName : Option String) :
    Returns (NameTaken (orText displayName t.displayName) t)
      (fun r => r.1.id = t.id ∧ r.2.1 = false ∧ r.2.2.users = s.users ∧ r.2.2.roles = s.roles ∧
        r.2.2.connections = s.connections)
      (getOrCreateTenant host entraTenantId t.identityScopeKey accountType displayName s) := by
  have hget : getTenantByScopeKey t.identityScopeKey s = some t := s.scopeKeys.find? ht rfl
  rw [getOrCreateTenant, hget]
  show Returns _ _ (if _ then _ else _)
  split_ifs with hname htext hnonempty
  · exact ⟨.inl hname, rfl, rfl, rfl, rfl, rfl⟩
  · intro hc
    exact hc.elim hname fun hc => by simp [hc.1] at htext
  · intro hc
    exact hc.elim hname fun hc => by simp [hc.2] at hnonempty
  · simp only [Bool.not_eq_true', Bool.not_eq_false] at htext hnonempty
    exact ⟨.inr ⟨htext, hnonempty⟩, rfl, rfl, rfl, rfl, rfl⟩

theorem getOrCreateRole_returns (host : Host) (tenantId : Uuid) (name description : String) (s : Store) :
    Returns (RoleTaken host tenantId name s)
      (fun r => r.2.users = s.users ∧ r.2.connections = s.connections)
      (getOrCreateRole host tenantId name description s) := by
  unfold getOrCreateRole
  cases hfind : s.roles.find? fun r => r.tenantId = tenantId ∧ r.name = name with
  | some role =>
    have hrole : role.tenantId = tenantId ∧ role.name = name := by simpa using List.find?_some hfind
    exact ⟨.inl ⟨role, List.mem_of_find?_eq_some hfind, hrole⟩, rfl, rfl⟩
  | none =>
    have hnone : ¬ ∃ r ∈ s.roles, r.tenantId = tenantId ∧ r.name = name := by
      simpa using List.find?_eq_none.mp hfind
    have hinsert : Returns (RoleTaken host tenantId name s)
        (fun s' : Store => s'.users = s.users ∧ s'.connections = s.connections)
        (s.insertRole ⟨host.roleId, tenantId, name, description, true⟩) := by
      unfold Store.insertRole
      split_ifs with hid hkey
      · exact fun hc => hc.elim hnone fun hc => hc.1 hid
      · exact fun hc => hc.elim hnone fun hc => hc.2 hkey
      · exact ⟨.inr ⟨hid, hkey⟩, rfl, rfl⟩
    exact hinsert.map fun _ hs' => hs'

theorem upsertOAuthConnection_returns (host : Host) (tenantId userId : Uuid) (encrypted : String)
    (scopes : List String) (authority : String) (s : Store) :
    Returns (ConnectionTaken host tenantId userId encrypted authority s) (fun s' => s'.users = s.users)
      (upsertOAuthConnection host tenantId userId encrypted scopes authority s) := by
  unfold upsertOAuthConnection
  cases hget : getOAuthConnection tenantId userId s with
  | some connection =>
    have hkey : (tenantId, userId, "microsoft") ∈ s.connections.map OAuthConnection.key :=
      List.mem_map.mpr ⟨connection, List.mem_of_find?_eq_some hget, by simpa using List.find?_some hget⟩
    show Returns _ _ (if _ then _ else _)
    split_ifs with htexts
    · exact ⟨⟨htexts, .inl hkey⟩, rfl⟩
    · exact fun hc => htexts hc.1
  | none =>
    have hkey : (tenantId, userId, "microsoft") ∉ s.connections.map OAuthConnection.key := by
      simpa using List.find?_eq_none.mp hget
    show Returns _ _ (Store.insertConnection _ _)
    unfold Store.insertConnection
    split_ifs with htexts hid hkey'
    · exact fun hc => by simp [hc.1] at htexts
    · exact fun hc => hc.2.elim hkey fun hnot => hnot hid
    · exact absurd hkey' hkey
    · simp only [Bool.not_eq_true', Bool.not_eq_false] at htexts
      exact ⟨⟨htexts, .inr hid⟩, rfl⟩

/-- The callback's transaction for a user who exists asks for no flag: it goes through when
the tables take what it writes, and counts a version up. -/
theorem onboardOAuthUser_returns (ht : t ∈ s.tenants) (hu : u ∈ s.users) (htenant : u.tenantId = t.id)
    {p : TokenPrincipal} (hp : SignsInAs p t u) (host : Host) (encrypted : String) (scopes : List String)
    (authority : String) :
    Returns (Takes host s t u p encrypted authority)
      (fun r => ∃ u' ∈ r.2.users, u'.id = u.id ∧ u'.version = u.version + 1)
      (onboardOAuthUser host p none encrypted scopes authority s) := by
  have hname : (if isPersonalAccount p.entraTenantId then some (orText none p.displayName) else none) =
      workspaceName p := rfl
  unfold onboardOAuthUser
  simp only [hname, hp.1]
  refine Returns.congr (c := _ ∧ _ ∧ _ ∧ _) ?_ ⟨fun h => ⟨h.1, h.2.1, h.2.2.1, h.2.2.2⟩,
    fun h => ⟨h.tenant, h.user, h.role, h.connection⟩⟩
  refine Returns.bind (getOrCreateTenant_returns ht host _ _ _).mapError fun r hr => ?_
  obtain ⟨tenant, created, s₁⟩ := r
  obtain ⟨hid, hcreated, husers, hroles, hconnections⟩ := hr
  simp only at hid hcreated husers hroles hconnections
  have hu₁ : u ∈ s₁.users := by rw [husers]; exact hu
  have hcount : countUsers tenant.id s₁ ≠ 0 := by
    rw [countUsers, ne_eq, List.length_eq_zero_iff]
    exact List.ne_nil_of_mem (List.mem_filter.mpr ⟨hu₁, by simp [htenant, hid]⟩)
  have hsync := synchronizeUser_of_mem hu₁ host p.displayName p.principalName
  rw [htenant, ← hp.2, ← hid] at hsync
  have hsynced : Returns (Store.takesUser p.displayName p.principalName) (fun r : User × Store =>
      r.1.id = u.id ∧ r.2.roles = s.roles ∧ r.2.connections = s.connections ∧
        ∃ u' ∈ r.2.users, u'.id = u.id ∧ u'.version = u.version + 1)
      (synchronizeUser host tenant.id p.entraObjectId p.displayName p.principalName s₁) := by
    rw [hsync]
    refine (Returns.ite fun _ => Returns.ok ?_).congr (iff_of_eq (and_true _))
    refine ⟨signedIn_id u.id _ _ _ u, hroles, hconnections, _, List.mem_map_of_mem hu₁, signedIn_id u.id _ _ _ u, ?_⟩
    simp [signedIn]
  simp only [hcreated, Bool.false_or, decide_eq_false hcount, onboardingRole, Bool.false_eq_true, if_false]
  refine Returns.bind hsynced.mapError fun r hr => ?_
  obtain ⟨user, s₂⟩ := r
  obtain ⟨huser, hroles₂, hconnections₂, hversion⟩ := hr
  simp only at huser hroles₂ hconnections₂ hversion
  have hrole : RoleTaken host tenant.id "Reader" s₂ ↔ RoleTaken host t.id "Reader" s := by
    unfold RoleTaken
    rw [hid, hroles₂]
  refine Returns.bind ((getOrCreateRole_returns host tenant.id "Reader" _ s₂).congr hrole).mapError fun r hr => ?_
  obtain ⟨role, s₃⟩ := r
  obtain ⟨husers₃, hconnections₃⟩ := hr
  simp only at husers₃ hconnections₃
  have hsame := (grantPermissions_same role readerPermissions s₃).trans
    (assignRole_same tenant.id user.id role.id (grantPermissions role readerPermissions s₃))
  have hconnection : ConnectionTaken host tenant.id user.id encrypted authority
      (assignRole tenant.id user.id role.id (grantPermissions role readerPermissions s₃)) ↔
      ConnectionTaken host t.id u.id encrypted authority s := by
    unfold ConnectionTaken
    rw [hsame.connections, hconnections₃, hconnections₂, hid, huser]
  refine ((Returns.mapError (upsertOAuthConnection_returns host tenant.id user.id encrypted scopes authority _)).congr
    hconnection).bind (d := True) (fun s₆ hs₆ => Returns.ok ?_) |>.congr (iff_of_eq (and_true _))
  show ∃ u' ∈ s₆.users, _
  rw [hs₆, hsame.users, husers₃]
  exact hversion

/-! ### The token endpoint -/

theorem internalCredential_eq_ok_iff {w : World} {r : TokenRequest} : internalCredential w r = .ok () ↔
    ∃ expected, present w.internalApiToken = some expected ∧
      compareDigest (r.internalToken.getD "") expected = .ok true := by
  unfold internalCredential
  refine ⟨?_, ?_⟩
  · intro h
    split at h
    case h_1 => cases h
    case h_2 expected hexpected =>
      obtain ⟨matched, hcompare, h⟩ := bind_eq_ok.mp h
      cases matched with
      | false => cases h
      | true => exact ⟨expected, hexpected, hcompare⟩
  · intro h
    obtain ⟨expected, hexpected, hcompare⟩ := h
    rw [hexpected]
    simp [hcompare, bind, Except.bind, pure, Except.pure]

theorem delegatedConnection_eq_ok_iff (ht : t ∈ s.tenants) (hu : u ∈ s.users) (htenant : u.tenantId = t.id)
    {r : TokenRequest} (hr : r.tenantId = t.id ∧ r.userId = u.id) {connection : OAuthConnection} :
    delegatedConnection r s = .ok connection ↔ u.isActive ∧ connection ∈ s.connections ∧
      connection.key = (r.tenantId, r.userId, "microsoft") := by
  have hgetTenant : getTenantById r.tenantId s = some t := s.tenantIds.find? ht hr.1.symm
  have hgetUser : getUserById r.tenantId r.userId s = some u := by
    rw [hr.1, hr.2, ← htenant]
    exact getUserById_of_mem hu
  rw [delegatedConnection, hgetTenant, hgetUser]
  refine ⟨?_, ?_⟩
  · intro h
    split at h
    case h_2 => cases h
    case h_1 heq hget =>
      obtain rfl := Option.some.inj heq
      split_ifs at h with hactive
      cases h
      exact ⟨hactive, List.mem_of_find?_eq_some hget, by simpa using List.find?_some hget⟩
  · intro h
    obtain ⟨hactive, hmem, hkey⟩ := h
    have hget : getOAuthConnection r.tenantId r.userId s = some connection := s.connectionKeys.find? hmem hkey
    rw [hget]
    exact if_pos hactive

/-- With a connection at hand, storing the new refresh token depends on the token alone. -/
theorem rotate_returns {w : World} {r : TokenRequest} {connection : OAuthConnection} (host : Host)
    (hmem : connection ∈ s.connections) (hkey : connection.key = (r.tenantId, r.userId, "microsoft"))
    (tokens : Json.Object) :
    Returns (∀ rotated, textOf (tokens.get "refresh_token") = some rotated → ∃ encrypted,
        w.encrypt rotated = .ok encrypted ∧
          [connection.tokenAuthority, encrypted].all Json.storableText)
      (fun _ => True) (rotate w host r connection tokens s) := by
  unfold rotate
  cases htext : textOf (tokens.get "refresh_token") with
  | none => exact ⟨nofun, trivial⟩
  | some rotated =>
    simp only [Option.some.injEq, forall_eq']
    cases hencrypt : w.encrypt rotated with
    | error rejection => exact fun hc => by simp at hc
    | ok encrypted =>
      have huser : connection.userId = r.userId := congrArg (fun k => k.2.1) hkey
      have hrow : (r.tenantId, connection.userId, "microsoft") ∈ s.connections.map OAuthConnection.key := by
        rw [huser, ← hkey]
        exact List.mem_map_of_mem hmem
      refine ((Returns.mapError (upsertOAuthConnection_returns host r.tenantId connection.userId encrypted
        oauthScopes connection.tokenAuthority s)).mono fun _ _ => trivial).congr ?_
      simp [ConnectionTaken, hrow]

theorem delegatedAzureToken_spec (ht : t ∈ s.tenants) (hu : u ∈ s.users) (htenant : u.tenantId = t.id)
    {w : World} {r : TokenRequest} (hr : r.tenantId = t.id ∧ r.userId = u.id) (host : Host) :
    Returns (Served w s u r) (fun result => ∃ accessToken expiresIn, result.1 = .azureToken accessToken expiresIn)
      (delegatedAzureToken w host r s) := by
  cases hresult : delegatedAzureToken w host r s with
  | ok result =>
    unfold delegatedAzureToken at hresult
    obtain ⟨_, hcredential, hresult⟩ := bind_eq_ok.mp hresult
    obtain ⟨connection, hconnection, hresult⟩ := bind_eq_ok.mp hresult
    obtain ⟨refreshToken, hdecrypt, hresult⟩ := bind_eq_ok.mp hresult
    obtain ⟨tokens, hrefresh, hresult⟩ := bind_eq_ok.mp hresult
    obtain ⟨expected, hexpected, hcompare⟩ := internalCredential_eq_ok_iff.mp hcredential
    obtain ⟨hactive, hmem, hkey⟩ := (delegatedConnection_eq_ok_iff ht hu htenant hr).mp hconnection
    split at hresult
    case h_1 => cases hresult
    case h_2 accessToken haccess =>
      obtain ⟨s', hrotate, hresult⟩ := bind_eq_ok.mp hresult
      have hrotated := rotate_returns (w := w) host hmem hkey tokens
      rw [hrotate] at hrotated
      split at hresult
      case h_1 => cases hresult
      case h_2 expiresIn hexpires =>
        cases hresult
        exact ⟨⟨hactive, expected, hexpected, hcompare, connection, hmem, hkey, refreshToken, tokens, accessToken,
          expiresIn, hdecrypt, hrefresh, haccess, hrotated.1, hexpires⟩, accessToken, expiresIn, rfl⟩
  | error rejection =>
    intro hserved
    obtain ⟨hactive, expected, hexpected, hcompare, connection, hmem, hkey, refreshToken, tokens, accessToken,
      expiresIn, hdecrypt, hrefresh, haccess, hrotated, hexpires⟩ := hserved
    have hcredential := internalCredential_eq_ok_iff.mpr ⟨expected, hexpected, hcompare⟩
    have hconnection := (delegatedConnection_eq_ok_iff ht hu htenant hr).mpr ⟨hactive, hmem, hkey⟩
    have hrotate := rotate_returns (w := w) host hmem hkey tokens
    cases hstored : rotate w host r connection tokens s with
    | error _ =>
      rw [hstored] at hrotate
      exact hrotate hrotated
    | ok s' =>
      simp [delegatedAzureToken, hcredential, hconnection, hdecrypt, hrefresh, haccess, hstored, hexpires, bind,
        Except.bind, pure, Except.pure] at hresult

/-! ### All requests -/

/-- **Which requests of a revoked user are turned away**: every profile read; a callback
exactly when one of its own checks stops it or the tables refuse a row it writes; a token
request exactly when it is not one the endpoint serves, where only the user's flag counts. -/
theorem closed_iff (w : World) (host : Host) (s : Store) (t : Tenant) (u : User) (r : Request)
    (ht : t ∈ s.tenants) (hu : u ∈ s.users) (htenant : u.tenantId = t.id) (hrevoked : Revoked t u)
    (hr : IsFor w t u r) : Closed w host s r ↔ Shut w host s t u r := by
  cases r with
  | profile sessionCookie credentials =>
    refine iff_of_true ?_ trivial
    have hrejected : ∃ rejection, getIdentity w host sessionCookie credentials s = .error rejection := by
      unfold getIdentity
      simp only [IsFor] at hr
      cases hcookie : present sessionCookie with
      | some token =>
        rw [hcookie] at hr
        cases hdecode : w.decodeSession token with
        | error rejection => exact ⟨rejection, by simp [bind, Except.bind, hdecode]⟩
        | ok claims =>
          obtain ⟨htid, huid⟩ := hr claims hdecode
          obtain ⟨rejection, hrejection⟩ := resolveSession_of_revoked ht hu htenant hrevoked host
          exact ⟨rejection, by simp [bind, Except.bind, hdecode, htid, huid, hrejection]⟩
      | none =>
        rw [hcookie] at hr
        cases credentials with
        | none => exact ⟨_, rfl⟩
        | some text =>
          cases hvalidate : w.validate text none with
          | error rejection => exact ⟨rejection, by simp [bind, Except.bind, hvalidate]⟩
          | ok p =>
            have hp := hr text rfl p hvalidate
            obtain ⟨rejection, hrejection⟩ := resolveAndSync_of_revoked ht hu htenant hrevoked hp host
            exact ⟨rejection, by simp [bind, Except.bind, hvalidate, hrejection]⟩
    obtain ⟨rejection, hrejection⟩ := hrejected
    exact ⟨rejection, by simp [handle, hrejection]⟩
  | callback r =>
    show (∃ rejection, callback w host r s = _) ↔ ¬ ∃ p encrypted, Admits w r p encrypted ∧
      Takes host s t u p encrypted (refreshAuthority p.entraTenantId r.tenantCookie)
    cases hauthorize : authorize w r with
    | error rejection =>
      refine iff_of_true ⟨rejection, by simp [callback, callbackTransaction, hauthorize, bind, Except.bind]⟩ ?_
      intro hadmitted
      obtain ⟨p, encrypted, hadmits, _⟩ := hadmitted
      rw [authorize_eq_ok_iff.mpr hadmits] at hauthorize
      cases hauthorize
    | ok result =>
      obtain ⟨p, encrypted⟩ := result
      have hadmits := authorize_eq_ok_iff.mp hauthorize
      have honly : (∃ p' encrypted', Admits w r p' encrypted' ∧
          Takes host s t u p' encrypted' (refreshAuthority p'.entraTenantId r.tenantCookie)) ↔
          Takes host s t u p encrypted (refreshAuthority p.entraTenantId r.tenantCookie) := by
        refine ⟨?_, ?_⟩
        · intro h
          obtain ⟨p', encrypted', hadmits', htakes⟩ := h
          have heq := (authorize_eq_ok_iff.mpr hadmits').symm.trans hauthorize
          cases heq
          exact htakes
        · exact fun h => ⟨p, encrypted, hadmits, h⟩
      have honboard := onboardOAuthUser_returns ht hu htenant (hr p encrypted hadmits) host encrypted oauthScopes
        (refreshAuthority p.entraTenantId r.tenantCookie)
      rw [honly]
      cases hresult : onboardOAuthUser host p none encrypted oauthScopes
          (refreshAuthority p.entraTenantId r.tenantCookie) s with
      | error rejection =>
        rw [hresult] at honboard
        refine iff_of_true ⟨rejection, ?_⟩ honboard
        simp [callback, callbackTransaction, hauthorize, bind, Except.bind, hresult]
      | ok result =>
        rw [hresult] at honboard
        obtain ⟨htakes, u', hu', hid, hversion⟩ := honboard
        refine iff_of_false (fun hclosed => ?_) (not_not.mpr htakes)
        -- Whatever is answered, the user's row has a new version.
        obtain ⟨rejection, hclosed⟩ := hclosed
        have hstore : (callback w host r s).2 = result.2 := by
          simp only [callback, callbackTransaction, hauthorize, bind, Except.bind, hresult]
          cases w.encodeSession (sessionClaims result.1) <;> rfl
        rw [hclosed] at hstore
        change s = result.2 at hstore
        rw [← hstore] at hu'
        have hsame := s.userIds.eq hu' hu hid
        rw [hsame] at hversion
        omega
  | token r =>
    have hspec := delegatedAzureToken_spec ht hu htenant (w := w) hr host
    show (∃ rejection, handle w host (.token r) s = _) ↔ ¬ Served w s u r
    cases hresult : delegatedAzureToken w host r s with
    | error rejection =>
      rw [hresult] at hspec
      exact iff_of_true ⟨rejection, by simp [handle, hresult]⟩ hspec
    | ok result =>
      rw [hresult] at hspec
      obtain ⟨hserved, accessToken, expiresIn, hanswer⟩ := hspec
      refine iff_of_false (fun hclosed => ?_) (not_not.mpr hserved)
      obtain ⟨rejection, hclosed⟩ := hclosed
      obtain ⟨answer, s'⟩ := result
      simp only at hanswer
      simp [handle, hresult, hanswer] at hclosed

end Rows

/-! ### A suspended tenant that is still served -/

/-- A user signs in, and then the tenant is suspended. -/
def suspended : List Action :=
  [.request sampleWorld sampleHost (.callback sampleCallback), .setStatus 1 .suspended]

/-- The token request gets an Azure token and the callback a session cookie. -/
def answers (s : Store) : Bool :=
  (match (handle sampleWorld laterHost (.token sampleToken) s).1 with
    | .azureToken _ _ => true
    | _ => false) &&
  (match (handle sampleWorld laterHost (.callback sampleCallback) s).1 with
    | .signedIn _ => true
    | _ => false)

theorem suspended_answers : (Transition.run step suspended .empty).any (fun s => answers s &&
    s.tenants.any (fun t => t.id = 1 ∧ t.status ≠ .active ∧ t.identityScopeKey = identityScopeKey 5 6) &&
    s.users.any fun u => u.id = 2 ∧ u.tenantId = 1 ∧ u.entraObjectId = 6) = true := by
  decide +kernel

/-- The state of `suspended`, its tenant and its user. -/
theorem suspended_reached : ∃ s, Reached s ∧ ∃ t ∈ s.tenants, ∃ u ∈ s.users, u.tenantId = t.id ∧ Revoked t u ∧
    IsFor sampleWorld t u (.token sampleToken) ∧ IsFor sampleWorld t u (.callback sampleCallback) ∧ answers s := by
  obtain ⟨s, hrun⟩ := Option.isSome_iff_exists.mp (Option.isSome_of_any suspended_answers)
  have hanswers := suspended_answers
  rw [hrun, Option.any_some, Bool.and_eq_true, Bool.and_eq_true, List.any_eq_true, List.any_eq_true] at hanswers
  obtain ⟨⟨hserved, t, ht, htenant⟩, u, hu, huser⟩ := hanswers
  simp only [ne_eq, decide_eq_true_eq] at htenant huser
  obtain ⟨htid, hstatus, hscope⟩ := htenant
  obtain ⟨huid, hutenant, hobject⟩ := huser
  refine ⟨s, ⟨suspended, hrun⟩, t, ht, u, hu, hutenant.trans htid.symm, .inl hstatus, ⟨htid.symm, huid.symm⟩, ?_,
    hserved⟩
  intro p encrypted hadmits
  have hp : p = samplePrincipal := by
    obtain ⟨_, _, _, _, _, _, _, _, _, _, _, _, _, hvalidate, _⟩ := hadmits
    exact (Except.ok.inj hvalidate).symm
  rw [hp]
  exact ⟨hscope.symm, hobject.symm⟩

/-- Suspending the tenant closes neither the token endpoint nor the callback. -/
theorem revoked_served : ∃ s, Reached s ∧ ∃ t ∈ s.tenants, ∃ u ∈ s.users, u.tenantId = t.id ∧ Revoked t u ∧
    (IsFor sampleWorld t u (.token sampleToken) ∧ ¬ Closed sampleWorld laterHost s (.token sampleToken)) ∧
    IsFor sampleWorld t u (.callback sampleCallback) ∧
      ¬ Closed sampleWorld laterHost s (.callback sampleCallback) := by
  obtain ⟨s, hreached, t, ht, u, hu, htenant, hrevoked, htoken, hcallback, hserved⟩ := suspended_reached
  rw [answers, Bool.and_eq_true] at hserved
  refine ⟨s, hreached, t, ht, u, hu, htenant, hrevoked, ⟨htoken, fun hclosed => ?_⟩, hcallback, fun hclosed => ?_⟩
  · obtain ⟨rejection, hclosed⟩ := hclosed
    simp [hclosed] at hserved
  · obtain ⟨rejection, hclosed⟩ := hclosed
    simp [hclosed] at hserved

theorem closed_iff_suspended : ∃ s t u, t ∈ s.tenants ∧ u ∈ s.users ∧ u.tenantId = t.id ∧ Revoked t u ∧
    (Closed sampleWorld laterHost s (.token sampleToken) ↔
      Shut sampleWorld laterHost s t u (.token sampleToken)) := by
  obtain ⟨s, _, t, ht, u, hu, htenant, hrevoked, htoken, _⟩ := suspended_reached
  exact ⟨s, t, u, ht, hu, htenant, hrevoked,
    closed_iff sampleWorld laterHost s t u (.token sampleToken) ht hu htenant hrevoked htoken⟩

end Sentinel.Identity
