import Sentinel.Identity.Account
import Sentinel.Library.Datetime
import Sentinel.Library.Jsonb
import Sentinel.Library.Table

/-! The identity tables, with the constraints of `schema.sql`.

A `Store` cannot break a constraint: a statement that would is refused with the name of the
constraint. -/
namespace Sentinel.Identity
open Library

inductive TenantStatus where
  | pendingConsent
  | active
  | suspended
  | offboarding
  | offboarded
  deriving DecidableEq

inductive AccountType where
  | organization
  | personal
  deriving DecidableEq

structure Tenant where
  id : Uuid
  entraTenantId : Uuid
  identityScopeKey : String
  accountType : AccountType
  displayName : String
  status : TenantStatus
  consentedAt : Option Instant

structure User where
  id : Uuid
  tenantId : Uuid
  entraObjectId : Uuid
  principalName : Option String
  displayName : String
  email : Option String
  isActive : Bool
  lastLoginAt : Option Instant
  version : Nat

structure Role where
  id : Uuid
  tenantId : Uuid
  name : String
  description : String
  isSystem : Bool

structure Permission where
  id : Uuid
  name : String
  description : String

structure RolePermission where
  roleId : Uuid
  permissionId : Uuid
  deriving DecidableEq

structure UserRole where
  tenantId : Uuid
  userId : Uuid
  roleId : Uuid
  scopeType : String
  scopeId : String
  expiresAt : Option Instant

structure OAuthConnection where
  id : Uuid
  tenantId : Uuid
  userId : Uuid
  provider : String
  tokenAuthority : String
  scopes : String
  encryptedRefreshToken : String
  lastRefreshedAt : Option Instant

/-- `uq_users_tenant_oid`. -/
def User.key (u : User) : Uuid × Uuid := (u.tenantId, u.entraObjectId)

/-- `lower(name)`, of the ASCII names roles have. -/
def lowerName (name : String) : List Char := name.toList.map Char.toLower

/-- `ux_roles_tenant_name`. -/
def Role.key (r : Role) : Uuid × List Char := (r.tenantId, lowerName r.name)

/-- The primary key of `user_roles`. -/
def UserRole.key (g : UserRole) : Uuid × Uuid × Uuid × String × String :=
  (g.tenantId, g.userId, g.roleId, g.scopeType, g.scopeId)

/-- `uq_oauth_tenant_user_provider`. -/
def OAuthConnection.key (c : OAuthConnection) : Uuid × Uuid × String := (c.tenantId, c.userId, c.provider)

structure Store where
  tenants : List Tenant
  users : List User
  roles : List Role
  permissions : List Permission
  rolePermissions : List RolePermission
  userRoles : List UserRole
  connections : List OAuthConnection
  tenantIds : Table.Unique Tenant.id tenants
  scopeKeys : Table.Unique Tenant.identityScopeKey tenants
  userIds : Table.Unique User.id users
  userKeys : Table.Unique User.key users
  roleIds : Table.Unique Role.id roles
  roleKeys : Table.Unique Role.key roles
  permissionIds : Table.Unique Permission.id permissions
  permissionNames : Table.Unique Permission.name permissions
  rolePermissionKeys : rolePermissions.Nodup
  userRoleKeys : Table.Unique UserRole.key userRoles
  connectionIds : Table.Unique OAuthConnection.id connections
  connectionKeys : Table.Unique OAuthConnection.key connections

/-- Why a statement failed. -/
inductive Failure where
  /-- A column does not take the value. -/
  | refused
  | primaryKey
  | tenantsDisplayNameNonempty
  | tenantsIdentityScopeKey
  | usersTenantOid
  | rolesTenantName
  | permissionsName
  | oauthTenantUserProvider
  deriving DecidableEq

namespace Store

def empty : Store where
  tenants := []
  users := []
  roles := []
  permissions := []
  rolePermissions := []
  userRoles := []
  connections := []
  tenantIds := Table.unique_nil
  scopeKeys := Table.unique_nil
  userIds := Table.unique_nil
  userKeys := Table.unique_nil
  roleIds := Table.unique_nil
  roleKeys := Table.unique_nil
  permissionIds := Table.unique_nil
  permissionNames := Table.unique_nil
  rolePermissionKeys := List.nodup_nil
  userRoleKeys := Table.unique_nil
  connectionIds := Table.unique_nil
  connectionKeys := Table.unique_nil

/-- `tenants_display_name_nonempty`; `trim` takes spaces only. -/
def nonempty (displayName : String) : Bool := displayName.toList.any (· != ' ')

/-- What the columns of `users` ask of the texts of an account. -/
def takesUser (displayName : String) (principalName : Option String) : Bool :=
  Json.storableText displayName && principalName.all Json.storableText

def insertTenant (s : Store) (t : Tenant) : Except Failure Store :=
  if !Json.storableText t.displayName then .error .refused
  else if !nonempty t.displayName then .error .tenantsDisplayNameNonempty
  else if hid : t.id ∈ s.tenants.map Tenant.id then .error .primaryKey
  else if hkey : t.identityScopeKey ∈ s.tenants.map Tenant.identityScopeKey then
    .error .tenantsIdentityScopeKey
  else .ok {s with
    tenants := s.tenants ++ [t]
    tenantIds := Table.unique_snoc.mpr ⟨hid, s.tenantIds⟩
    scopeKeys := Table.unique_snoc.mpr ⟨hkey, s.scopeKeys⟩}

def insertUser (s : Store) (u : User) : Except Failure Store :=
  if !takesUser u.displayName u.principalName then .error .refused
  else if hid : u.id ∈ s.users.map User.id then .error .primaryKey
  else if hkey : u.key ∈ s.users.map User.key then .error .usersTenantOid
  else .ok {s with
    users := s.users ++ [u]
    userIds := Table.unique_snoc.mpr ⟨hid, s.userIds⟩
    userKeys := Table.unique_snoc.mpr ⟨hkey, s.userKeys⟩}

def insertRole (s : Store) (r : Role) : Except Failure Store :=
  if hid : r.id ∈ s.roles.map Role.id then .error .primaryKey
  else if hkey : r.key ∈ s.roles.map Role.key then .error .rolesTenantName
  else .ok {s with
    roles := s.roles ++ [r]
    roleIds := Table.unique_snoc.mpr ⟨hid, s.roleIds⟩
    roleKeys := Table.unique_snoc.mpr ⟨hkey, s.roleKeys⟩}

def insertPermission (s : Store) (p : Permission) : Except Failure Store :=
  if hid : p.id ∈ s.permissions.map Permission.id then .error .primaryKey
  else if hname : p.name ∈ s.permissions.map Permission.name then .error .permissionsName
  else .ok {s with
    permissions := s.permissions ++ [p]
    permissionIds := Table.unique_snoc.mpr ⟨hid, s.permissionIds⟩
    permissionNames := Table.unique_snoc.mpr ⟨hname, s.permissionNames⟩}

def insertRolePermission (s : Store) (g : RolePermission) : Except Failure Store :=
  if hkey : g ∈ s.rolePermissions then .error .primaryKey
  else .ok {s with
    rolePermissions := s.rolePermissions ++ [g]
    rolePermissionKeys := by
      rw [← List.concat_eq_append, List.nodup_concat]
      exact ⟨hkey, s.rolePermissionKeys⟩}

def insertUserRole (s : Store) (g : UserRole) : Except Failure Store :=
  if hkey : g.key ∈ s.userRoles.map UserRole.key then .error .primaryKey
  else .ok {s with
    userRoles := s.userRoles ++ [g]
    userRoleKeys := Table.unique_snoc.mpr ⟨hkey, s.userRoleKeys⟩}

/-- Adds the row unless a row has its key, as `session.get` finds out first. -/
def addRolePermission (s : Store) (g : RolePermission) : Store :=
  if hkey : g ∈ s.rolePermissions then s
  else {s with
    rolePermissions := s.rolePermissions ++ [g]
    rolePermissionKeys := by
      rw [← List.concat_eq_append, List.nodup_concat]
      exact ⟨hkey, s.rolePermissionKeys⟩}

/-- Adds the row unless a row has its key, as `session.get` finds out first. -/
def addUserRole (s : Store) (g : UserRole) : Store :=
  if hkey : g.key ∈ s.userRoles.map UserRole.key then s
  else {s with
    userRoles := s.userRoles ++ [g]
    userRoleKeys := Table.unique_snoc.mpr ⟨hkey, s.userRoleKeys⟩}

def insertConnection (s : Store) (c : OAuthConnection) : Except Failure Store :=
  if !([c.tokenAuthority, c.encryptedRefreshToken].all Json.storableText) then .error .refused
  else if hid : c.id ∈ s.connections.map OAuthConnection.id then .error .primaryKey
  else if hkey : c.key ∈ s.connections.map OAuthConnection.key then .error .oauthTenantUserProvider
  else .ok {s with
    connections := s.connections ++ [c]
    connectionIds := Table.unique_snoc.mpr ⟨hid, s.connectionIds⟩
    connectionKeys := Table.unique_snoc.mpr ⟨hkey, s.connectionKeys⟩}

def updateTenants (s : Store) (f : Tenant → Tenant) (hid : ∀ t, (f t).id = t.id)
    (hkey : ∀ t, (f t).identityScopeKey = t.identityScopeKey) : Store :=
  {s with
    tenants := s.tenants.map f
    tenantIds := s.tenantIds.rewrite hid
    scopeKeys := s.scopeKeys.rewrite hkey}

def updateUsers (s : Store) (f : User → User) (hid : ∀ u, (f u).id = u.id)
    (hkey : ∀ u, (f u).key = u.key) : Store :=
  {s with
    users := s.users.map f
    userIds := s.userIds.rewrite hid
    userKeys := s.userKeys.rewrite hkey}

def updateConnections (s : Store) (f : OAuthConnection → OAuthConnection) (hid : ∀ c, (f c).id = c.id)
    (hkey : ∀ c, (f c).key = c.key) : Store :=
  {s with
    connections := s.connections.map f
    connectionIds := s.connectionIds.rewrite hid
    connectionKeys := s.connectionKeys.rewrite hkey}

end Store
end Sentinel.Identity
