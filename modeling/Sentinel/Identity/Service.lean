import Sentinel.Identity.Repository

/-! `IdentityService`: what each way of identifying a user checks, reads and writes.

Every function runs in one transaction: with a `Rejection` nothing it wrote is kept. -/
namespace Sentinel.Identity
open Library

structure TokenPrincipal where
  entraTenantId : Uuid
  entraObjectId : Uuid
  displayName : String
  principalName : Option String

structure ResolvedIdentity where
  tenant : Tenant
  user : User
  roles : List Role
  permissions : List Permission

/-- Why a request gets no answer. -/
inductive Rejection where
  | http (status : Nat) (detail : String)
  /-- An error response of the provider, passed on with status 401. -/
  | provider (detail : Json)
  /-- An exception the service does not handle. -/
  | exception (message : String)
  | database (failure : Failure)

/-- A statement of the transaction. -/
def statement {α : Type} (r : Except Failure α) : Except Rejection α := r.mapError .database

theorem of_statement {α : Type} {r : Except Failure α} {a : α} (h : statement r = .ok a) : r = .ok a := by
  cases r with
  | error f => cases h
  | ok b =>
    cases h
    rfl

section Service
variable (host : Host)

def resolveAndSync (principal : TokenPrincipal) (s : Store) : Except Rejection (ResolvedIdentity × Store) :=
  match getTenantByScopeKey (identityScopeKey principal.entraTenantId principal.entraObjectId) s with
  | none => .error (.http 403 "Tenant has not been onboarded")
  | some tenant =>
    if tenant.status ≠ .active then .error (.http 403 "Tenant is not active")
    else do
      let (user, s) ← statement (synchronizeUser host tenant.id principal.entraObjectId
        principal.displayName principal.principalName s)
      if !user.isActive then .error (.http 403 "User is disabled")
      else return (⟨tenant, user, effectiveRoles host tenant.id user.id s,
        effectivePermissions host tenant.id user.id s⟩, s)

def administratorPermissions : List String :=
  ["tenant.onboarding.manage", "identity.roles.read", "identity.roles.assign",
    "inventory.resources.read", "inventory.sync.execute", "relationships.read", "analysis.create",
    "analysis.read", "operations.create", "operations.approve", "operations.execute",
    "operations.cancel", "audit.read", "audit.export", "settings.manage"]

def readerPermissions : List String :=
  ["inventory.resources.read", "relationships.read", "analysis.read", "audit.read"]

/-- The role `onboard_oauth_user` gives, with its description and its permissions. -/
def onboardingRole (administrator : Bool) : String × String × List String :=
  if administrator then
    ("TenantAdministrator", "Full Sentinel administration within one tenant", administratorPermissions)
  else ("Reader", "Read-only Sentinel access", readerPermissions)

def onboardOAuthUser (principal : TokenPrincipal) (tenantDisplayName : Option String)
    (encryptedRefreshToken : String) (scopes : List String) (tokenAuthority : String) (s : Store) :
    Except Rejection (ResolvedIdentity × Store) := do
  let personal := isPersonalAccount principal.entraTenantId
  let (tenant, created, s) ← statement (getOrCreateTenant host principal.entraTenantId
    (identityScopeKey principal.entraTenantId principal.entraObjectId)
    (if personal then .personal else .organization)
    (if personal then some (orText tenantDisplayName principal.displayName) else tenantDisplayName) s)
  let existingCount := countUsers tenant.id s
  let (user, s) ← statement (synchronizeUser host tenant.id principal.entraObjectId
    principal.displayName principal.principalName s)
  let (roleName, description, permissionNames) := onboardingRole (created || existingCount = 0)
  let (role, s) ← statement (getOrCreateRole host tenant.id roleName description s)
  let s := grantPermissions role permissionNames s
  let s := assignRole tenant.id user.id role.id s
  let s ← statement (upsertOAuthConnection host tenant.id user.id encryptedRefreshToken scopes tokenAuthority s)
  return (⟨tenant, user, effectiveRoles host tenant.id user.id s,
    effectivePermissions host tenant.id user.id s⟩, s)

def resolveSession (tenantId userId : Uuid) (s : Store) : Except Rejection ResolvedIdentity :=
  match getUserById tenantId userId s with
  | none => .error (.http 401 "Session user is not active")
  | some user =>
    if !user.isActive then .error (.http 401 "Session user is not active")
    else match getTenantById tenantId s with
      | none => .error (.http 403 "Tenant is not active")
      | some tenant =>
        if tenant.status ≠ .active then .error (.http 403 "Tenant is not active")
        else .ok ⟨tenant, user, effectiveRoles host tenantId userId s,
          effectivePermissions host tenantId userId s⟩

end Service
end Sentinel.Identity
