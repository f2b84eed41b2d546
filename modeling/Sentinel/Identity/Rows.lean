import Sentinel.Identity.Transactions
import Sentinel.Library.Fallible

/-! The rows a transaction leaves, table by table. -/
namespace Sentinel.Identity
open Library Library.Fallible

/-- The rows of a store, without what its constraints say of them. -/
structure Rows where
  tenants : List Tenant
  users : List User
  roles : List Role
  permissions : List Permission
  rolePermissions : List RolePermission
  userRoles : List UserRole
  connections : List OAuthConnection

def Store.rows (s : Store) : Rows where
  tenants := s.tenants
  users := s.users
  roles := s.roles
  permissions := s.permissions
  rolePermissions := s.rolePermissions
  userRoles := s.userRoles
  connections := s.connections

section Statements
variable {s s' : Store}

theorem insertTenant_rows {t : Tenant} (h : s.insertTenant t = .ok s') :
    s'.rows = {s.rows with tenants := s.tenants ++ [t]} := by
  unfold Store.insertTenant at h
  split_ifs at h
  cases h
  rfl

theorem insertUser_rows {u : User} (h : s.insertUser u = .ok s') :
    s'.rows = {s.rows with users := s.users ++ [u]} := by
  unfold Store.insertUser at h
  split_ifs at h
  cases h
  rfl

theorem insertRole_rows {r : Role} (h : s.insertRole r = .ok s') :
    s'.rows = {s.rows with roles := s.roles ++ [r]} := by
  unfold Store.insertRole at h
  split_ifs at h
  cases h
  rfl

theorem insertRolePermission_rows {g : RolePermission} (h : s.insertRolePermission g = .ok s') :
    s'.rows = {s.rows with rolePermissions := s.rolePermissions ++ [g]} := by
  unfold Store.insertRolePermission at h
  split_ifs at h
  cases h
  rfl

theorem insertUserRole_rows {g : UserRole} (h : s.insertUserRole g = .ok s') :
    s'.rows = {s.rows with userRoles := s.userRoles ++ [g]} := by
  unfold Store.insertUserRole at h
  split_ifs at h
  cases h
  rfl

theorem insertConnection_rows {c : OAuthConnection} (h : s.insertConnection c = .ok s') :
    s'.rows = {s.rows with connections := s.connections ++ [c]} := by
  unfold Store.insertConnection at h
  split_ifs at h
  cases h
  rfl

theorem insertPermission_rows {p : Permission} (h : s.insertPermission p = .ok s') :
    s'.rows = {s.rows with permissions := s.permissions ++ [p]} := by
  unfold Store.insertPermission at h
  split_ifs at h
  cases h
  rfl

end Statements

/-! ### Bootstrap on empty tables -/

section Bootstrap
variable {s s' : Store} {host : Host} {permissionIds : String → Uuid} {settings : BootstrapSettings}

theorem bootstrapPermissions_rows {permissions : List (String × String)}
    (h : bootstrapPermissions permissionIds permissions s = .ok s') :
    s'.rows = {s.rows with permissions := s'.permissions} := by
  induction permissions generalizing s with
  | nil =>
    cases h
    rfl
  | cons p rest ih =>
    obtain ⟨name, description⟩ := p
    obtain ⟨s₁, h₁, h₂⟩ := bind_eq_ok.mp h
    have hstep : s₁.rows = {s.rows with permissions := s₁.permissions} := by
      unfold bootstrapPermission at h₁
      split at h₁
      · cases h₁
        rfl
      · have hpermissions : s₁.permissions = s.permissions ++ [⟨permissionIds name, name, description⟩] :=
          congrArg Rows.permissions (insertPermission_rows h₁)
        rw [insertPermission_rows h₁, hpermissions]
    rw [ih h₂, hstep]

theorem grantPermissions_rows (role : Role) (permissionNames : List String) (s : Store) :
    (grantPermissions role permissionNames s).rows =
      {s.rows with rolePermissions := (grantPermissions role permissionNames s).rolePermissions} := by
  unfold grantPermissions
  induction s.permissions.filter fun p => p.name ∈ permissionNames generalizing s with
  | nil => rfl
  | cons p rest ih =>
    have hstep : (s.addRolePermission ⟨role.id, p.id⟩).rows =
        {s.rows with rolePermissions := (s.addRolePermission ⟨role.id, p.id⟩).rolePermissions} := by
      unfold Store.addRolePermission
      split_ifs <;> rfl
    rw [List.foldl_cons, ih, hstep]

/-- A user, a role and a grant, if an administrator is configured, and else no user and no
grant. -/
theorem bootstrapIdentity_empty (h : bootstrapIdentity host permissionIds settings .empty = .ok s') :
    s'.users = [] ∧ s'.userRoles = [] ∧ (settings.tenantId = none ∨ settings.adminObjectId = none) ∨
    ∃ u r g, s'.users = [u] ∧ s'.roles = [r] ∧ s'.userRoles = [g] ∧ settings.tenantId.isSome ∧
      settings.adminObjectId.isSome ∧ u.id = host.userId ∧ u.tenantId = host.tenantId ∧
      r.tenantId = host.tenantId ∧ r.name = "TenantAdministrator" ∧ g.tenantId = host.tenantId ∧
      g.userId = host.userId ∧ g.roleId = r.id ∧ host.tenantId ∈ s'.tenants.map Tenant.id := by
  unfold bootstrapIdentity at h
  obtain ⟨s₁, h₁, h⟩ := bind_eq_ok.mp h
  have e₁ := bootstrapPermissions_rows h₁
  cases htenant : settings.tenantId with
  | none =>
    rw [htenant] at h
    cases h
    exact .inl ⟨congrArg Rows.users e₁, congrArg Rows.userRoles e₁, .inl rfl⟩
  | some entraTenantId =>
    rw [htenant] at h
    obtain ⟨⟨t, s₂⟩, h₂, h⟩ := bind_eq_ok.mp h
    have hnoTenant : getTenantByScopeKey (identityScopeKey entraTenantId 0) s₁ = none := by
      have htenants : s₁.tenants = [] := congrArg Rows.tenants e₁
      simp [getTenantByScopeKey, htenants]
    simp only [bootstrapTenant, hnoTenant] at h₂
    obtain ⟨_, hinsertTenant, hpair⟩ := map_eq_ok.mp h₂
    cases hpair
    have e₂ := insertTenant_rows hinsertTenant
    obtain ⟨⟨r, s₃⟩, h₃, h⟩ := bind_eq_ok.mp h
    have hnoRole : ∀ name, (s₂.roles.find? fun r => r.tenantId = host.tenantId ∧ r.name = name) = none := by
      have hroles : s₂.roles = [] := (congrArg Rows.roles e₂).trans (congrArg Rows.roles e₁)
      simp [hroles]
    simp only [getOrCreateRole, hnoRole] at h₃
    obtain ⟨_, hinsertRole, hpair⟩ := map_eq_ok.mp h₃
    cases hpair
    have e₃ := insertRole_rows hinsertRole
    have e₄ := grantPermissions_rows ⟨host.roleId, host.tenantId, "TenantAdministrator",
      "Full Sentinel administration within one tenant", true⟩ (permissionDescriptions.map Prod.fst) s₃
    simp only [Store.rows, Rows.mk.injEq] at e₁ e₂ e₃ e₄
    cases hadmin : settings.adminObjectId with
    | none =>
      rw [hadmin] at h
      cases h
      refine .inl ⟨?_, ?_, .inr rfl⟩
      · rw [e₄.2.1, e₃.2.1, e₂.2.1, e₁.2.1]
        rfl
      · rw [e₄.2.2.2.2.2.1, e₃.2.2.2.2.2.1, e₂.2.2.2.2.2.1, e₁.2.2.2.2.2.1]
        rfl
    | some objectId =>
      rw [hadmin] at h
      obtain ⟨⟨u, s₅⟩, h₅, h⟩ := bind_eq_ok.mp h
      have hnoUser : getUser host.tenantId objectId (grantPermissions ⟨host.roleId, host.tenantId,
          "TenantAdministrator", "Full Sentinel administration within one tenant", true⟩
          (permissionDescriptions.map Prod.fst) s₃) = none := by
        simp [getUser, e₄.2.1, e₃.2.1, e₂.2.1, e₁.2.1, Store.empty]
      simp only [bootstrapAdmin, hnoUser] at h₅
      obtain ⟨_, hinsertUser, hpair⟩ := map_eq_ok.mp h₅
      cases hpair
      have e₅ := insertUser_rows hinsertUser
      simp only [Store.rows, Rows.mk.injEq] at e₅
      have hnoGrant : s₅.userRoles = [] := by
        rw [e₅.2.2.2.2.2.1, e₄.2.2.2.2.2.1, e₃.2.2.2.2.2.1, e₂.2.2.2.2.2.1, e₁.2.2.2.2.2.1]
        rfl
      have husers : s₅.users = [⟨host.userId, host.tenantId, objectId, none, settings.adminName, none, true,
          none, 1⟩] := by
        rw [e₅.2.1, e₄.2.1, e₃.2.1, e₂.2.1, e₁.2.1]
        rfl
      have hroles : s₅.roles = [⟨host.roleId, host.tenantId, "TenantAdministrator",
          "Full Sentinel administration within one tenant", true⟩] := by
        rw [e₅.2.2.1, e₄.2.2.1, e₃.2.2.1, e₂.2.2.1, e₁.2.2.1]
        rfl
      cases h
      refine .inr ⟨⟨host.userId, host.tenantId, objectId, none, settings.adminName, none, true, none, 1⟩,
        ⟨host.roleId, host.tenantId, "TenantAdministrator",
          "Full Sentinel administration within one tenant", true⟩,
        ⟨host.tenantId, host.userId, host.roleId, "tenant", "*", none⟩, ?_, ?_, ?_,
        rfl, rfl, rfl, rfl, rfl, rfl, rfl, rfl, rfl, ?_⟩
      · rw [(assignRole_same _ _ _ _).users, husers]
      · rw [(assignRole_same _ _ _ _).roles, hroles]
      · simp [assignRole, Store.addUserRole, hnoGrant]
      · rw [(assignRole_same _ _ _ _).tenants, e₅.1, e₄.1, e₃.1, e₂.1]
        simp

end Bootstrap

namespace Transactions
open Table

section Writes
variable {s s' : Store}

theorem writeTenant_rows {c : AtTenant} (h : writeTenant c s = .ok s') :
    s'.rows = {s.rows with tenants := c.tenant.write (renamed c.tenant.row c.displayName) s.tenants} := by
  unfold writeTenant at h
  split at h
  case h_1 t htenant =>
    rw [insertTenant_rows h, htenant]
    rfl
  case h_2 t htenant =>
    split_ifs at h
    cases h
    rw [htenant]
    rfl

theorem writeUser_rows {login : Login} {u : Upsert User} (h : writeUser login u s = .ok s') :
    s'.rows = {s.rows with users := u.write (synced login u.row) s.users} := by
  cases u with
  | fresh u => exact insertUser_rows h
  | found u =>
    simp only [writeUser] at h
    split_ifs at h
    cases h
    rfl

theorem writeRole_rows {r : Upsert Role} (h : writeRole r s = .ok s') :
    s'.rows = {s.rows with roles := r.write id s.roles} := by
  cases r with
  | fresh r => exact insertRole_rows h
  | found r =>
    cases h
    simp [Upsert.write, Store.rows]

theorem writeRolePermissions_rows {rows : List RolePermission} (h : writeRolePermissions rows s = .ok s') :
    s'.rows = {s.rows with rolePermissions := s.rolePermissions ++ rows} := by
  induction rows generalizing s with
  | nil =>
    cases h
    simp [Store.rows]
  | cons g rest ih =>
    obtain ⟨s₁, h₁, h₂⟩ := bind_eq_ok.mp h
    have hrows := insertRolePermission_rows h₁
    have hgrants : s₁.rolePermissions = s.rolePermissions ++ [g] := congrArg Rows.rolePermissions hrows
    rw [ih h₂, hrows, hgrants]
    simp

theorem writeUserRole_rows {g : Option UserRole} (h : writeUserRole g s = .ok s') :
    s'.rows = {s.rows with userRoles := s.userRoles ++ g.toList} := by
  cases g with
  | some g => exact insertUserRole_rows h
  | none =>
    cases h
    simp [Store.rows]

theorem writeConnection_rows {host : Host} {c : Upsert OAuthConnection} {tokenAuthority encrypted : String}
    (h : writeConnection host c tokenAuthority encrypted s = .ok s') :
    s'.rows = {s.rows with
      connections := c.write (reconnected host c.row tokenAuthority encrypted) s.connections} := by
  cases c with
  | fresh c => exact insertConnection_rows h
  | found c =>
    simp only [writeConnection] at h
    split_ifs at h
    cases h
    rfl

/-- What a callback leaves. -/
theorem writeOnboarding_rows {login : Login} {tokenAuthority encrypted : String} {c : AtConnection}
    (h : writeOnboarding login tokenAuthority encrypted c s = .ok s') :
    s'.rows = {
      tenants := c.tenant.write (renamed c.tenant.row c.displayName) s.tenants
      users := c.user.write (synced login c.user.row) s.users
      roles := c.role.write id s.roles
      permissions := s.permissions
      rolePermissions := s.rolePermissions ++ c.rolePermissions
      userRoles := s.userRoles ++ c.userRole.toList
      connections := c.connection.write (reconnected login.host c.connection.row tokenAuthority encrypted)
        s.connections } := by
  obtain ⟨s₁, h₁, h⟩ := bind_eq_ok.mp h
  obtain ⟨s₂, h₂, h⟩ := bind_eq_ok.mp h
  obtain ⟨s₃, h₃, h⟩ := bind_eq_ok.mp h
  obtain ⟨s₄, h₄, h⟩ := bind_eq_ok.mp h
  obtain ⟨s₅, h₅, h₆⟩ := bind_eq_ok.mp h
  have e₁ := writeTenant_rows h₁
  have e₂ := writeUser_rows h₂
  have e₃ := writeRole_rows h₃
  have e₄ := writeRolePermissions_rows h₄
  have e₅ := writeUserRole_rows h₅
  have e₆ := writeConnection_rows h₆
  simp only [Store.rows, Rows.mk.injEq] at e₁ e₂ e₃ e₄ e₅ e₆ ⊢
  grind

end Writes
end Transactions
end Sentinel.Identity
