import Sentinel.Identity.Microsoft
import Sentinel.Identity.Privileges

/-! `EntraTokenValidator`: whom a token of Microsoft's is of, and which tenants may come in.

The issuer a token is verified against is made of the tenant it claims before it is
verified. PyJWT and the keys Microsoft publishes are taken as they come (`Jwt`): what is
verified has the claims that were read before, and the issuer asked for.

So every account has its own tenant's token behind it, or a bootstrap (`vetted`). -/
namespace Sentinel.Identity
open Library Library.Fallible Library.Transition Common

/-- The settings of the validator, and those of `callback` it is called with. -/
structure ValidatorSettings where
  entraAudience : Option String
  authorityHost : String
  allowedTenants : List String
  microsoftClientId : Option String

/-- `jwt`, the keys at `discovery/v2.0/keys`, and `UUID`. -/
structure Jwt where
  Key : Type
  header : String → Option Json.Object
  /-- `jwt.decode` without verification. -/
  claims : String → Option Json.Object
  signingKey : Json → Option Key
  /-- `jwt.decode` with a key, an audience and an issuer. -/
  decode : Key → String → String → String → Option Json.Object
  uuid : String → Option Uuid
  decode_claims : ∀ key audience issuer token verified,
    decode key audience issuer token = some verified → claims token = some verified
  decode_issuer : ∀ key audience issuer token verified,
    decode key audience issuer token = some verified → verified.get "iss" = some (.str issuer)

/-- The answer to a `KeyError`, a `ValueError` or an error of PyJWT's. -/
def invalidToken : Rejection := .http 401 "Invalid Microsoft Entra access token"

def required {α : Type} : Option α → Except Rejection α
  | some a => .ok a
  | none => .error invalidToken

section Validate
variable (settings : ValidatorSettings) (jwt : Jwt) (py : Python)

/-- `audience or self._settings.entra_audience`. -/
def expectedAudience (audience : Option String) : Except Rejection String :=
  match present audience, present settings.entraAudience with
  | some audience, _ => .ok audience
  | none, some audience => .ok audience
  | none, none => .error (.exception "Microsoft token audience is not configured")

def issuer (tenantId : Uuid) : String := rstrip '/' settings.authorityHost ++ "/" ++ Uuid.str tenantId ++ "/v2.0"

/-- The tenant is on the list, if there is one. -/
def TenantAllowed (tenantId : Uuid) : Prop :=
  settings.allowedTenants = [] ∨ Uuid.str tenantId ∈ settings.allowedTenants

instance (tenantId : Uuid) : Decidable (TenantAllowed settings tenantId) :=
  inferInstanceAs (Decidable (_ ∨ _))

def displayName (verified : Json.Object) : String :=
  py.str (orElse (verified.get "name") (orElse (verified.get "preferred_username") (.str "User")))

def unhashable : Json → Bool
  | .arr _ | .obj _ => true
  | _ => false

/-- `verified.get("preferred_username")`. -/
def principalName (verified : Json.Object) : Except Rejection (Option String) :=
  match verified.get "preferred_username" with
  | some (.str text) => .ok (some text)
  | some .null | none => .ok none
  | some _ => .error (.exception "no text")

/-- `frozenset(verified.get("roles", []))`: of a text its characters, of an object its names, and
of a list its items if none is itself a list or an object. Nothing reads the roles. -/
def principalRoles (verified : Json.Object) : Except Rejection Unit :=
  match verified.get "roles" with
  | none | some (.str _) | some (.obj _) => .ok ()
  | some (.arr items) =>
    if items.any unhashable then .error (.exception "unhashable type") else .ok ()
  | some _ => .error (.exception "object is not iterable")

/-- `EntraTokenValidator.validate`. -/
def validate (token : String) (audience : Option String) : Except Rejection TokenPrincipal := do
  let audience ← expectedAudience settings audience
  let header ← required (jwt.header token)
  let claims ← required (jwt.claims token)
  let tid ← required (claims.get "tid")
  let tenantId ← required (jwt.uuid (py.str tid))
  if ¬ TenantAllowed settings tenantId then .error (.http 403 "Tenant is not allowed")
  else do
    let kid ← required (header.get "kid")
    let key ← required (jwt.signingKey kid)
    let verified ← required (jwt.decode key audience (issuer settings tenantId) token)
    let oid ← required (verified.get "oid")
    let objectId ← required (jwt.uuid (py.str oid))
    let name ← principalName verified
    principalRoles verified
    return ⟨tenantId, objectId, displayName py verified, name⟩

/-- The claims of a token, verified with the key it names and for the audience expected, by the
issuer of the tenant. -/
def Decodes (audience : Option String) (entraTenantId : Uuid) (token : String) (verified : Json.Object) : Prop :=
  ∃ expected header kid key, expectedAudience settings audience = .ok expected ∧
    jwt.header token = some header ∧ header.get "kid" = some kid ∧ jwt.signingKey kid = some key ∧
    jwt.decode key expected (issuer settings entraTenantId) token = some verified

/-- A token of Microsoft's says so of the account, one of the tenant's issuer for the audience of
the service, or for the client that logins ask it for. -/
structure Verified (entraTenantId entraObjectId : Uuid) : Prop where
  allowed : TenantAllowed settings entraTenantId
  token : ∃ audience token verified tid oid, (audience = none ∨ audience = settings.microsoftClientId) ∧
    Decodes settings jwt audience entraTenantId token verified ∧
      verified.get "tid" = some tid ∧ jwt.uuid (py.str tid) = some entraTenantId ∧
      verified.get "oid" = some oid ∧ jwt.uuid (py.str oid) = some entraObjectId

end Validate

section Validate
variable {settings : ValidatorSettings} {jwt : Jwt} {py : Python} {p : TokenPrincipal}

end Validate

def sampleValidator : ValidatorSettings where
  entraAudience := some "sentinel"
  authorityHost := "https://login.microsoftonline.com/"
  allowedTenants := [Uuid.str 5]
  microsoftClientId := some "client"

theorem wellFormed_sampleHeader : Json.WellFormed (.obj [("kid", .str "key")]) := by simp [Json.WellFormed]

theorem wellFormed_sampleClaims : Json.WellFormed (.obj [("iss", .str (issuer sampleValidator 5)),
    ("tid", .str (Uuid.str 5)), ("oid", .str (Uuid.str 6)), ("name", .str "Ada")]) := by simp [Json.WellFormed]

/-- The provider of one token. -/
def sampleJwt : Jwt where
  Key := Unit
  header := fun token => if token = "token" then some ⟨_, wellFormed_sampleHeader⟩ else none
  claims := fun token => if token = "token" then some ⟨_, wellFormed_sampleClaims⟩ else none
  signingKey := fun _ => some ()
  decode := fun _ audience claimed token =>
    if token = "token" ∧ audience = "sentinel" ∧ claimed = issuer sampleValidator 5 then
      some ⟨_, wellFormed_sampleClaims⟩
    else none
  uuid := Uuid.ofStr
  decode_claims := by
    intro _ audience claimed token verified h
    split_ifs at h with hthere
    rw [if_pos hthere.1, h]
  decode_issuer := by
    intro _ audience claimed token verified h
    split_ifs at h with hthere
    cases h
    rw [hthere.2.2]
    rfl

example : validate sampleValidator sampleJwt .ascii "token" none = .ok ⟨5, 6, "Ada", none⟩ := by
  simp [validate, expectedAudience, sampleJwt, sampleValidator, present, required, Json.Object.get, List.lookup,
    Python.str, Uuid.ofStr_str, TenantAllowed, displayName, principalName, principalRoles, orElse, truthy,
    Option.filter, bind, Except.bind, pure, Except.pure]

/-! ### Where the rows come from -/

section Rows
variable {s s' : Store} {host : Host}

end Rows

/-! ### All of a deployment -/

section Vetted
variable (settings : ValidatorSettings) (jwt : Jwt) (py : Python) (configured : BootstrapSettings → Prop)

/-- A bootstrap names the tenant, or Microsoft knows an account of it. -/
def KnownTenant (entraTenantId : Uuid) : Prop :=
  (∃ b, configured b ∧ b.tenantId = some entraTenantId) ∨
    ∃ entraObjectId, Verified settings jwt py entraTenantId entraObjectId

/-- A bootstrap names the account as an administrator, or Microsoft knows it. -/
def KnownAccount (entraTenantId entraObjectId : Uuid) : Prop :=
  (∃ b, configured b ∧ b.tenantId = some entraTenantId ∧ b.adminObjectId = some entraObjectId) ∨
    Verified settings jwt py entraTenantId entraObjectId

structure Vetted (s : Store) : Prop where
  keyed : Keyed s
  tenant : ∀ t ∈ s.tenants, KnownTenant settings jwt py configured t.entraTenantId
  user : ∀ u ∈ s.users, ∃ t ∈ s.tenants, t.id = u.tenantId ∧
    KnownAccount settings jwt py configured t.entraTenantId u.entraObjectId

variable {settings jwt py configured} {s s' : Store}

theorem Vetted.extend (h : Vetted settings jwt py configured s) (hs : Extends s s') (hkeyed : Keyed s')
    (htenant : ∀ t' ∈ s'.tenants, KnownTenant settings jwt py configured t'.entraTenantId ∨
      ∃ t ∈ s.tenants, t.entraTenantId = t'.entraTenantId)
    (huser : ∀ u' ∈ s'.users, (∃ t ∈ s'.tenants, t.id = u'.tenantId ∧
      KnownAccount settings jwt py configured t.entraTenantId u'.entraObjectId) ∨ ∃ u ∈ s.users, u.key = u'.key) :
    Vetted settings jwt py configured s' where
  keyed := hkeyed
  tenant := by
    intro t' ht'
    rcases htenant t' ht' with hnew | ⟨t, ht, heq⟩
    · exact hnew
    · rw [← heq]
      exact h.tenant t ht
  user := by
    intro u' hu'
    rcases huser u' hu' with hnew | ⟨u, hu, hkey⟩
    · exact hnew
    · obtain ⟨t, ht, hid, hknown⟩ := h.user u hu
      obtain ⟨t', ht', hid', hentra', -⟩ := hs.tenants t ht
      refine ⟨t', ht', hid'.trans (hid.trans (congrArg Prod.fst hkey)), ?_⟩
      rw [hentra', ← show u.entraObjectId = u'.entraObjectId from congrArg Prod.snd hkey]
      exact hknown

/-- The workspace with an account's key is of the account's tenant. -/
theorem Keyed.entraTenantId (h : Keyed s) {t : Tenant} (ht : t ∈ s.tenants) {entraTenantId oid : Uuid}
    (hkey : t.identityScopeKey = identityScopeKey entraTenantId oid) : t.entraTenantId = entraTenantId := by
  obtain ⟨oid', hkey'⟩ := h t ht
  exact (identityScopeKey_eq_iff.mp (hkey'.symm.trans hkey)).1

theorem Vetted.of_same (h : Vetted settings jwt py configured s) (hs : Extends s s') (hkeyed : Keyed s')
    (htenants : s'.tenants = s.tenants) (husers : s'.users = s.users) : Vetted settings jwt py configured s' :=
  h.extend hs hkeyed (fun t' ht' => .inr ⟨t', htenants ▸ ht', rfl⟩) fun u' hu' => .inr ⟨u', husers ▸ hu', rfl⟩

end Vetted
end Sentinel.Identity
