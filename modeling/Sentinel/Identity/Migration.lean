import Sentinel.Identity.Workspaces

/-! Migration `20260607_0003`, which gives tenants a scope key and connections an authority.

It makes an organization of every tenant it finds. The running code counts the accounts of
the consumer tenant as personal ones: their workspaces have other keys, and their tokens are
refreshed at another authority. So the two agree as long as nobody of that tenant is there
(`migration_agrees_iff`). -/
namespace Sentinel.Identity.Migration
open Library

/-- A row of `identity.tenants` before the upgrade. A column that is not there yet, or is
null, is `none`. -/
structure TenantRow where
  id : Uuid
  entraTenantId : Uuid
  identityScopeKey : Option String
  accountType : Option AccountType
  displayName : String
  status : TenantStatus
  consentedAt : Option Instant

/-- A row of `identity.oauth_connections` before the upgrade. -/
structure ConnectionRow where
  id : Uuid
  tenantId : Uuid
  userId : Uuid
  provider : String
  tokenAuthority : Option String
  scopes : String
  encryptedRefreshToken : String
  lastRefreshedAt : Option Instant

/-- The identity tables at revision `20260607_0002`, with their constraints. -/
structure Database where
  tenants : List TenantRow
  users : List User
  roles : List Role
  permissions : List Permission
  rolePermissions : List RolePermission
  userRoles : List UserRole
  connections : List ConnectionRow
  tenantIds : Table.Unique TenantRow.id tenants
  /-- `tenants_entra_tenant_id_key`. -/
  entraTenantIds : Table.Unique TenantRow.entraTenantId tenants
  /-- The keys that are there already differ. -/
  scopeKeys : ∀ t ∈ tenants, ∀ t' ∈ tenants, ∀ key, t.identityScopeKey = some key →
    t'.identityScopeKey = some key → t = t'
  userIds : Table.Unique User.id users
  userKeys : Table.Unique User.key users
  roleIds : Table.Unique Role.id roles
  roleKeys : Table.Unique Role.key roles
  permissionIds : Table.Unique Permission.id permissions
  permissionNames : Table.Unique Permission.name permissions
  rolePermissionKeys : rolePermissions.Nodup
  userRoleKeys : Table.Unique UserRole.key userRoles
  connectionIds : Table.Unique ConnectionRow.id connections
  connectionKeys : Table.Unique (fun c => (c.tenantId, c.userId, c.provider)) connections
  /-- Connections refer to tenants. -/
  connectionTenants : ∀ c ∈ connections, c.tenantId ∈ tenants.map TenantRow.id

/-! ### The upgrade -/

/-- A tenant after the columns were added, with their default, and the null keys filled. -/
def upgradeTenant (t : TenantRow) : Tenant where
  id := t.id
  entraTenantId := t.entraTenantId
  identityScopeKey := t.identityScopeKey.getD ("tenant:" ++ Uuid.str t.entraTenantId)
  accountType := t.accountType.getD .organization
  displayName := t.displayName
  status := t.status
  consentedAt := t.consentedAt

/-- The authority after the update from the tenant of the connection. -/
def upgradedAuthority (tenants : List TenantRow) (c : ConnectionRow) : Option String :=
  match tenants.find? fun t => t.id = c.tenantId with
  | some t => some (Uuid.str t.entraTenantId)
  | none => c.tokenAuthority

def upgradeConnection (tenants : List TenantRow) (c : ConnectionRow) : OAuthConnection where
  id := c.id
  tenantId := c.tenantId
  userId := c.userId
  provider := c.provider
  tokenAuthority := (upgradedAuthority tenants c).getD ""
  scopes := c.scopes
  encryptedRefreshToken := c.encryptedRefreshToken
  lastRefreshedAt := c.lastRefreshedAt

/-- `upgrade`: it stops at the unique constraint if two keys are the same, and at the column
that may not be null if a connection has no authority. -/
def upgrade (d : Database) : Except Failure Store :=
  if hkeys : ((d.tenants.map upgradeTenant).map Tenant.identityScopeKey).Nodup then
    if d.connections.all fun c => (upgradedAuthority d.tenants c).isSome then .ok {
      tenants := d.tenants.map upgradeTenant
      users := d.users
      roles := d.roles
      permissions := d.permissions
      rolePermissions := d.rolePermissions
      userRoles := d.userRoles
      connections := d.connections.map (upgradeConnection d.tenants)
      tenantIds := by
        rw [Table.Unique, List.map_map]
        exact d.tenantIds
      scopeKeys := hkeys
      userIds := d.userIds
      userKeys := d.userKeys
      roleIds := d.roleIds
      roleKeys := d.roleKeys
      permissionIds := d.permissionIds
      permissionNames := d.permissionNames
      rolePermissionKeys := d.rolePermissionKeys
      userRoleKeys := d.userRoleKeys
      connectionIds := by
        rw [Table.Unique, List.map_map]
        exact d.connectionIds
      connectionKeys := by
        rw [Table.Unique, List.map_map]
        exact d.connectionKeys }
    else .error .refused
  else .error .tenantsIdentityScopeKey

/-! ### Agreement with the running code -/

/-- A sign-in with this tenant and object id finds the tenant, whatever name it asks for. -/
def ResolvesTo (s : Store) (entraTenantId entraObjectId tenantId : Uuid) : Prop :=
  ∀ (host : Host) (accountType : AccountType) (displayName : Option String),
    (∀ name ∈ displayName, Json.storableText name ∧ Store.nonempty name) →
    ∃ t s', getOrCreateTenant host entraTenantId (identityScopeKey entraTenantId entraObjectId) accountType
      displayName s = .ok (t, false, s') ∧ t.id = tenantId

structure Agrees (d : Database) (s : Store) : Prop where
  signIn : ∀ t ∈ d.tenants, ∀ u ∈ d.users, u.tenantId = t.id →
    ResolvesTo s t.entraTenantId u.entraObjectId t.id
  authority : ∀ c ∈ s.connections, ∀ t ∈ s.tenants, t.id = c.tenantId →
    c.tokenAuthority = refreshAuthority t.entraTenantId none

/-- Nobody of the consumer tenant is in a tenant without a key, or has a connection; a key
that is there is the one its users sign in with, and none that the migration makes. -/
structure Compatible (d : Database) : Prop where
  users : ∀ t ∈ d.tenants, ∀ u ∈ d.users, u.tenantId = t.id →
    match t.identityScopeKey with
    | none => t.entraTenantId ≠ microsoftConsumerTenantId
    | some key => key = identityScopeKey t.entraTenantId u.entraObjectId
  connections : ∀ c ∈ d.connections, ∀ t ∈ d.tenants, t.id = c.tenantId →
    t.entraTenantId ≠ microsoftConsumerTenantId
  keys : ∀ t ∈ d.tenants, ∀ t' ∈ d.tenants, t.identityScopeKey = none →
    t'.identityScopeKey ≠ some ("tenant:" ++ Uuid.str t.entraTenantId)

theorem organization_key_iff {entraTenantId entraObjectId : Uuid} :
    "tenant:" ++ Uuid.str entraTenantId = identityScopeKey entraTenantId entraObjectId ↔
      entraTenantId ≠ microsoftConsumerTenantId := by
  by_cases h : entraTenantId = microsoftConsumerTenantId
  · refine iff_of_false (fun heq => ?_) (not_not.mpr h)
    have hlists := congrArg String.toList heq
    simp [identityScopeKey, isPersonalAccount, h] at hlists
  · simp [identityScopeKey, isPersonalAccount, h]

theorem organization_authority_iff {entraTenantId : Uuid} :
    Uuid.str entraTenantId = refreshAuthority entraTenantId none ↔ entraTenantId ≠ microsoftConsumerTenantId := by
  by_cases h : entraTenantId = microsoftConsumerTenantId
  · subst h
    exact iff_of_false (by decide +kernel) (not_not.mpr rfl)
  · simp [refreshAuthority, isPersonalAccount, orText, h]

/-- A sign-in finds the tenant that has its key. -/
theorem resolvesTo_iff {s : Store} {entraTenantId entraObjectId tenantId : Uuid} :
    ResolvesTo s entraTenantId entraObjectId tenantId ↔
      ∃ t ∈ s.tenants, t.identityScopeKey = identityScopeKey entraTenantId entraObjectId ∧ t.id = tenantId := by
  refine ⟨?_, ?_⟩
  · intro h
    obtain ⟨t, s', hrun, hid⟩ := h sampleHost .organization none (by simp)
    unfold getOrCreateTenant at hrun
    cases hget : getTenantByScopeKey (identityScopeKey entraTenantId entraObjectId) s with
    | none =>
      simp only [hget] at hrun
      obtain ⟨_, _, hpair⟩ := Fallible.map_eq_ok.mp hrun
      cases hpair
    | some t₀ =>
      simp only [hget, orText, if_true] at hrun
      cases hrun
      exact ⟨t, List.mem_of_find?_eq_some hget, by simpa using List.find?_some hget, hid⟩
  · rintro ⟨t, ht, hkey, hid⟩ host accountType displayName hname
    have hget : getTenantByScopeKey (identityScopeKey entraTenantId entraObjectId) s = some t :=
      s.scopeKeys.find? ht hkey
    have htaken : orText displayName t.displayName = t.displayName ∨
        Json.storableText (orText displayName t.displayName) ∧ Store.nonempty (orText displayName t.displayName) := by
      cases displayName with
      | none => exact .inl rfl
      | some name =>
        by_cases hempty : name = ""
        · exact .inl (if_pos hempty)
        · rw [orText, if_neg hempty]
          exact .inr (hname name rfl)
    unfold getOrCreateTenant
    simp only [hget]
    split_ifs with hsame hstorable hnonempty
    · exact ⟨t, s, rfl, hid⟩
    · simp [(htaken.resolve_left hsame).1] at hstorable
    · simp [(htaken.resolve_left hsame).2] at hnonempty
    · exact ⟨_, _, rfl, hid⟩

section Upgrade
variable {d : Database} {s : Store}

theorem upgrade_rows (h : upgrade d = .ok s) : s.tenants = d.tenants.map upgradeTenant ∧
    s.connections = d.connections.map (upgradeConnection d.tenants) := by
  unfold upgrade at h
  split_ifs at h
  cases h
  exact ⟨rfl, rfl⟩

/-- Every connection has the authority of its tenant's id. -/
theorem upgradedAuthority_eq {c : ConnectionRow} {t : TenantRow} (ht : t ∈ d.tenants) (hid : t.id = c.tenantId) :
    upgradedAuthority d.tenants c = some (Uuid.str t.entraTenantId) := by
  rw [upgradedAuthority, d.tenantIds.find? ht hid]

/-- The upgrade goes through when it makes no key that is there already. -/
theorem upgrade_completes_iff : (∃ s, upgrade d = .ok s) ↔ ∀ t ∈ d.tenants, ∀ t' ∈ d.tenants,
    t.identityScopeKey = none → t'.identityScopeKey ≠ some ("tenant:" ++ Uuid.str t.entraTenantId) := by
  have hauthorities : (d.connections.all fun c => (upgradedAuthority d.tenants c).isSome) = true := by
    rw [List.all_eq_true]
    intro c hc
    obtain ⟨t, ht, hid⟩ := List.mem_map.mp (d.connectionTenants c hc)
    rw [upgradedAuthority_eq ht hid]
    rfl
  have hiff : (∃ s, upgrade d = .ok s) ↔ ((d.tenants.map upgradeTenant).map Tenant.identityScopeKey).Nodup := by
    unfold upgrade
    split_ifs with hkeys
    · exact iff_of_true ⟨_, rfl⟩ hkeys
    · exact iff_of_false (by simp) hkeys
  rw [hiff, List.map_map]
  refine ⟨?_, ?_⟩
  · intro hnodup t ht t' ht' hnone hsome
    have heq : t = t' := List.inj_on_of_nodup_map hnodup ht ht' (by simp [upgradeTenant, hnone, hsome])
    rw [heq, hsome] at hnone
    cases hnone
  · intro hkeys
    refine List.Nodup.map_on (fun t ht t' ht' heq => ?_) (List.Nodup.of_map _ d.tenantIds)
    simp only [Function.comp_apply, upgradeTenant] at heq
    cases hold : t.identityScopeKey with
    | none =>
      cases hold' : t'.identityScopeKey with
      | none =>
        have hstr : Uuid.str t.entraTenantId = Uuid.str t'.entraTenantId := by
          have hlists := congrArg String.toList heq
          simp only [hold, hold', Option.getD_none, String.toList_append, List.append_cancel_left_eq] at hlists
          exact String.toList_injective hlists
        exact d.entraTenantIds.eq ht ht' (Uuid.str_inj hstr)
      | some key =>
        rw [hold, hold'] at heq
        exact absurd (hold'.trans (congrArg some heq.symm)) (hkeys t ht t' ht' hold)
    | some key =>
      cases hold' : t'.identityScopeKey with
      | none =>
        rw [hold, hold'] at heq
        exact absurd (hold.trans (congrArg some heq)) (hkeys t' ht' t ht hold')
      | some key' =>
        rw [hold, hold'] at heq
        obtain rfl : key = key' := heq
        exact d.scopeKeys t ht t' ht' key hold hold'

/-- A user finds the row again if it has the key the user signs in with. -/
theorem signIn_iff (h : upgrade d = .ok s) {t : TenantRow} (ht : t ∈ d.tenants) (entraObjectId : Uuid) :
    ResolvesTo s t.entraTenantId entraObjectId t.id ↔
      match t.identityScopeKey with
      | none => t.entraTenantId ≠ microsoftConsumerTenantId
      | some key => key = identityScopeKey t.entraTenantId entraObjectId := by
  have hrow : ResolvesTo s t.entraTenantId entraObjectId t.id ↔
      (upgradeTenant t).identityScopeKey = identityScopeKey t.entraTenantId entraObjectId := by
    have hmem : upgradeTenant t ∈ s.tenants := by
      rw [(upgrade_rows h).1]
      exact List.mem_map_of_mem ht
    rw [resolvesTo_iff]
    refine ⟨?_, fun hkey => ⟨_, hmem, hkey, rfl⟩⟩
    rintro ⟨t', ht', hkey, hid⟩
    rwa [s.tenantIds.eq ht' hmem hid] at hkey
  rw [hrow, upgradeTenant]
  cases t.identityScopeKey with
  | none => exact organization_key_iff
  | some key => exact Iff.rfl

theorem authority_iff (h : upgrade d = .ok s) :
    (∀ c ∈ s.connections, ∀ t ∈ s.tenants, t.id = c.tenantId →
      c.tokenAuthority = refreshAuthority t.entraTenantId none) ↔
    ∀ c ∈ d.connections, ∀ t ∈ d.tenants, t.id = c.tenantId → t.entraTenantId ≠ microsoftConsumerTenantId := by
  obtain ⟨htenants, hconnections⟩ := upgrade_rows h
  rw [htenants, hconnections]
  simp only [List.forall_mem_map]
  refine forall₂_congr fun c hc => forall₂_congr fun t ht => forall_congr' fun hid => ?_
  have hid : t.id = c.tenantId := hid
  show (upgradedAuthority d.tenants c).getD "" = refreshAuthority t.entraTenantId none ↔ _
  rw [upgradedAuthority_eq ht hid]
  exact organization_authority_iff

/-- **The migration agrees with the running code exactly when it meets nobody of the consumer
tenant** (and no key that is there already is in its way). -/
theorem migration_agrees_iff (d : Database) : (∃ s, upgrade d = .ok s ∧ Agrees d s) ↔ Compatible d := by
  refine ⟨?_, ?_⟩
  · rintro ⟨s, h, hsignIn, hauthority⟩
    refine ⟨?_, (authority_iff h).mp hauthority, upgrade_completes_iff.mp ⟨s, h⟩⟩
    exact fun t ht u hu htenant => (signIn_iff h ht u.entraObjectId).mp (hsignIn t ht u hu htenant)
  · intro hcompatible
    obtain ⟨s, h⟩ := upgrade_completes_iff.mpr hcompatible.keys
    refine ⟨s, h, ?_, (authority_iff h).mpr hcompatible.connections⟩
    exact fun t ht u hu htenant => (signIn_iff h ht u.entraObjectId).mpr (hcompatible.users t ht u hu htenant)

end Upgrade

/-- The consumer tenant with two users, who share it. -/
def sampleConsumer : Database where
  tenants := [⟨1, microsoftConsumerTenantId, none, none, "Personal accounts", .active, none⟩]
  users := [⟨2, 1, 6, none, "Ada", none, true, none, 1⟩, ⟨3, 1, 7, none, "Grace", none, true, none, 1⟩]
  roles := []
  permissions := []
  rolePermissions := []
  userRoles := []
  connections := [⟨4, 1, 2, "microsoft", none, "openid", "fernet:refresh", none⟩]
  tenantIds := by simp [Table.Unique]
  entraTenantIds := by simp [Table.Unique]
  scopeKeys := by simp
  userIds := by simp [Table.Unique]
  userKeys := by simp [Table.Unique, User.key]
  roleIds := Table.unique_nil
  roleKeys := Store.empty.roleKeys
  permissionIds := Table.unique_nil
  permissionNames := Table.unique_nil
  rolePermissionKeys := List.nodup_nil
  userRoleKeys := Store.empty.userRoleKeys
  connectionIds := by simp [Table.Unique]
  connectionKeys := by simp [Table.Unique]
  connectionTenants := by simp

/-- Its upgrade goes through, and its users do not find the row again. -/
theorem sampleConsumer_disagrees :
    (∃ s, upgrade sampleConsumer = .ok s) ∧ ¬ ∃ s, upgrade sampleConsumer = .ok s ∧ Agrees sampleConsumer s := by
  refine ⟨upgrade_completes_iff.mpr (by simp [sampleConsumer]), ?_⟩
  rintro ⟨s, h, hsignIn, -⟩
  have hfound := hsignIn _ (List.mem_singleton_self _) _ (List.mem_cons_self ..) rfl
  exact (signIn_iff h (List.mem_singleton_self _) 6).mp hfound rfl

end Sentinel.Identity.Migration
