import Sentinel.Identity.Models
import Sentinel.Library.Query

/-! `IdentityRepository`: each function as the source has it, on the store. -/
namespace Sentinel.Identity
open Library

/-- What a request draws from the machine it runs on: the clock, at each place that reads
it, and the id of each row it may add. -/
structure Host where
  consentedAt : Instant
  lastLoginAt : Instant
  lastRefreshedAt : Instant
  rolesAt : Instant
  permissionsAt : Instant
  tenantId : Uuid
  userId : Uuid
  roleId : Uuid
  connectionId : Uuid

section Repository
variable (host : Host)

def getTenantByScopeKey (scopeKey : String) (s : Store) : Option Tenant :=
  s.tenants.find? fun t => t.identityScopeKey = scopeKey

def getTenantById (tenantId : Uuid) (s : Store) : Option Tenant :=
  s.tenants.find? fun t => t.id = tenantId

/-- The update of a tenant's name. -/
def renameTenant (id : Uuid) (displayName : String) (t : Tenant) : Tenant :=
  if t.id = id then {t with displayName := displayName} else t

theorem renameTenant_eq (id : Uuid) (displayName : String) (t : Tenant) :
    renameTenant id displayName t =
      {t with displayName := if t.id = id then displayName else t.displayName} := by
  unfold renameTenant; split_ifs <;> rfl

/-- `get_or_create_tenant`: the tenant, whether it is new, and the store. -/
def getOrCreateTenant (entraTenantId : Uuid) (scopeKey : String) (accountType : AccountType)
    (displayName : Option String) (s : Store) : Except Failure (Tenant × Bool × Store) :=
  match getTenantByScopeKey scopeKey s with
  | some tenant =>
    let name := orText displayName tenant.displayName
    if name = tenant.displayName then .ok (tenant, false, s)
    else if !Json.storableText name then .error .refused
    else if !Store.nonempty name then .error .tenantsDisplayNameNonempty
    else .ok ({tenant with displayName := name}, false,
      s.updateTenants (renameTenant tenant.id name)
        (fun t => by rw [renameTenant_eq]) (fun t => by rw [renameTenant_eq]))
  | none =>
    let tenant := {
      id := host.tenantId
      entraTenantId := entraTenantId
      identityScopeKey := scopeKey
      accountType := accountType
      displayName := orText displayName (Uuid.str entraTenantId)
      status := .active
      consentedAt := some host.consentedAt }
    (s.insertTenant tenant).map fun s => (tenant, true, s)

def getUser (tenantId entraObjectId : Uuid) (s : Store) : Option User :=
  s.users.find? fun u => u.key = (tenantId, entraObjectId)

/-- The update of a user who signs in again. -/
def signedIn (id : Uuid) (displayName : String) (principalName : Option String) (now : Instant)
    (u : User) : User :=
  if u.id = id then
    {u with
      displayName := displayName
      principalName := principalName
      email := principalName
      lastLoginAt := some now
      version := u.version + 1}
  else u

theorem signedIn_id (id : Uuid) (displayName : String) (principalName : Option String) (now : Instant)
    (u : User) : (signedIn id displayName principalName now u).id = u.id := by
  unfold signedIn; split_ifs <;> rfl

theorem signedIn_key (id : Uuid) (displayName : String) (principalName : Option String) (now : Instant)
    (u : User) : (signedIn id displayName principalName now u).key = u.key := by
  unfold signedIn; split_ifs <;> rfl

def synchronizeUser (tenantId entraObjectId : Uuid) (displayName : String) (principalName : Option String)
    (s : Store) : Except Failure (User × Store) :=
  match getUser tenantId entraObjectId s with
  | none =>
    let user := {
      id := host.userId
      tenantId := tenantId
      entraObjectId := entraObjectId
      principalName := principalName
      displayName := displayName
      email := principalName
      isActive := true
      lastLoginAt := none
      version := 1 }
    (s.insertUser user).map fun s => (user, s)
  | some user =>
    if Store.takesUser displayName principalName then
      .ok (signedIn user.id displayName principalName host.lastLoginAt user,
        s.updateUsers (signedIn user.id displayName principalName host.lastLoginAt)
          (signedIn_id user.id displayName principalName host.lastLoginAt)
          (signedIn_key user.id displayName principalName host.lastLoginAt))
    else .error .refused

def getUserById (tenantId userId : Uuid) (s : Store) : Option User :=
  s.users.find? fun u => u.tenantId = tenantId ∧ u.id = userId

def countUsers (tenantId : Uuid) (s : Store) : Nat := (s.users.filter fun u => u.tenantId = tenantId).length

def getOrCreateRole (tenantId : Uuid) (name description : String) (s : Store) :
    Except Failure (Role × Store) :=
  match s.roles.find? fun r => r.tenantId = tenantId ∧ r.name = name with
  | some role => .ok (role, s)
  | none =>
    let role := {
      id := host.roleId
      tenantId := tenantId
      name := name
      description := description
      isSystem := true }
    (s.insertRole role).map fun s => (role, s)

def grantPermissions (role : Role) (permissionNames : List String) (s : Store) : Store :=
  (s.permissions.filter fun p => p.name ∈ permissionNames).foldl
    (fun s p => s.addRolePermission ⟨role.id, p.id⟩) s

def assignRole (tenantId userId roleId : Uuid) (s : Store) : Store :=
  s.addUserRole ⟨tenantId, userId, roleId, "tenant", "*", none⟩

/-- At most the grants of roles and permissions differ. -/
structure SameRows (s s' : Store) : Prop where
  tenants : s'.tenants = s.tenants
  users : s'.users = s.users
  roles : s'.roles = s.roles
  permissions : s'.permissions = s.permissions
  connections : s'.connections = s.connections

theorem SameRows.refl (s : Store) : SameRows s s := ⟨rfl, rfl, rfl, rfl, rfl⟩

theorem SameRows.trans {s s' s'' : Store} (h : SameRows s s') (h' : SameRows s' s'') : SameRows s s'' :=
  ⟨h'.tenants.trans h.tenants, h'.users.trans h.users, h'.roles.trans h.roles,
    h'.permissions.trans h.permissions, h'.connections.trans h.connections⟩

theorem grantPermissions_same (role : Role) (permissionNames : List String) (s : Store) :
    SameRows s (grantPermissions role permissionNames s) := by
  unfold grantPermissions
  induction s.permissions.filter fun p => p.name ∈ permissionNames generalizing s with
  | nil => exact .refl s
  | cons p rest ih =>
    have hstep : SameRows s (s.addRolePermission ⟨role.id, p.id⟩) := by
      unfold Store.addRolePermission
      split_ifs <;> exact ⟨rfl, rfl, rfl, rfl, rfl⟩
    exact hstep.trans (ih _)

theorem assignRole_same (tenantId userId roleId : Uuid) (s : Store) :
    SameRows s (assignRole tenantId userId roleId s) := by
  unfold assignRole Store.addUserRole
  split_ifs <;> exact ⟨rfl, rfl, rfl, rfl, rfl⟩

/-- The row of the user; the unique key leaves at most one, so the order asked for decides
nothing. -/
def getOAuthConnection (tenantId userId : Uuid) (s : Store) : Option OAuthConnection :=
  s.connections.find? fun c => c.key = (tenantId, userId, "microsoft")

/-- The update of a connection. -/
def refreshed (id : Uuid) (encryptedRefreshToken scopes tokenAuthority : String) (now : Instant)
    (c : OAuthConnection) : OAuthConnection :=
  if c.id = id then
    {c with
      scopes := scopes
      tokenAuthority := tokenAuthority
      encryptedRefreshToken := encryptedRefreshToken
      lastRefreshedAt := some now}
  else c

theorem refreshed_id (id : Uuid) (encryptedRefreshToken scopes tokenAuthority : String) (now : Instant)
    (c : OAuthConnection) : (refreshed id encryptedRefreshToken scopes tokenAuthority now c).id = c.id := by
  unfold refreshed; split_ifs <;> rfl

theorem refreshed_key (id : Uuid) (encryptedRefreshToken scopes tokenAuthority : String) (now : Instant)
    (c : OAuthConnection) : (refreshed id encryptedRefreshToken scopes tokenAuthority now c).key = c.key := by
  unfold refreshed; split_ifs <;> rfl

def upsertOAuthConnection (tenantId userId : Uuid) (encryptedRefreshToken : String) (scopes : List String)
    (tokenAuthority : String) (s : Store) : Except Failure Store :=
  match getOAuthConnection tenantId userId s with
  | none => s.insertConnection {
      id := host.connectionId
      tenantId := tenantId
      userId := userId
      provider := "microsoft"
      tokenAuthority := tokenAuthority
      scopes := " ".intercalate scopes
      encryptedRefreshToken := encryptedRefreshToken
      lastRefreshedAt := none }
  | some connection =>
    if [tokenAuthority, encryptedRefreshToken].all Json.storableText then
      .ok (s.updateConnections
        (refreshed connection.id encryptedRefreshToken (" ".intercalate scopes) tokenAuthority
          host.lastRefreshedAt)
        (refreshed_id connection.id encryptedRefreshToken _ tokenAuthority host.lastRefreshedAt)
        (refreshed_key connection.id encryptedRefreshToken _ tokenAuthority host.lastRefreshedAt))
    else .error .refused

/-- The roles the user holds at an instant. -/
def heldRoleIds (tenantId userId : Uuid) (now : Instant) (s : Store) : List Uuid :=
  (s.userRoles.filter fun g => g.tenantId = tenantId ∧ g.userId = userId ∧
    (g.expiresAt.all fun expiry => now < expiry)).map UserRole.roleId

def effectiveRoles (tenantId userId : Uuid) (s : Store) : List Role :=
  Query.orderBy (fun a b : Role => a.name ≤ b.name)
    (s.roles.filter fun r => r.id ∈ heldRoleIds tenantId userId host.rolesAt s)

def effectivePermissions (tenantId userId : Uuid) (s : Store) : List Permission :=
  Query.orderBy (fun a b : Permission => a.name ≤ b.name)
    (s.permissions.filter fun p => s.rolePermissions.any fun g => g.permissionId = p.id ∧
      g.roleId ∈ s.roles.map Role.id ∧ g.roleId ∈ heldRoleIds tenantId userId host.permissionsAt s)

end Repository
end Sentinel.Identity
