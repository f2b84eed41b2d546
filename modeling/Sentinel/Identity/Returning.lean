import Sentinel.Identity.Rows
import Sentinel.Identity.Workspaces

/-! A user who logs in again.

`onboard_oauth_user` asks whether the tenant had users, not whether this user is new. So the
login that made its user the administrator counts one user the next time, and that user is
given Reader as well; from then on logins change nothing (`repeated_login_iff`). -/
namespace Sentinel.Identity
open Library Library.Fallible Transition

/-- The tables that say who may do what. -/
structure Unchanged (s s' : Store) : Prop where
  tenants : s'.tenants = s.tenants
  roles : s'.roles = s.roles
  rolePermissions : s'.rolePermissions = s.rolePermissions
  userRoles : s'.userRoles = s.userRoles

def ResolvedIdentity.roleNames (identity : ResolvedIdentity) : List String := identity.roles.map Role.name

/-- The workspace of the principal is there, and somebody is in it. -/
def HasUsers (principal : TokenPrincipal) (s : Store) : Prop :=
  ∃ t ∈ s.tenants, t.identityScopeKey = identityScopeKey principal.entraTenantId principal.entraObjectId ∧
    ∃ u ∈ s.users, u.tenantId = t.id

/-! ### What the tables keep -/

/-- Users are in tenants there are, and roles are granted to users there are, for good. -/
structure Sound (s : Store) : Prop where
  tenant : ∀ u ∈ s.users, u.tenantId ∈ s.tenants.map Tenant.id
  user : ∀ g ∈ s.userRoles, g.userId ∈ s.users.map User.id
  lasting : ∀ g ∈ s.userRoles, g.expiresAt = none

section Sound
variable {s s' : Store}

/-- Writes that add no tenant, no user and no grant. -/
theorem Sound.of_ids (h : Sound s) (htenants : s'.tenants.map Tenant.id = s.tenants.map Tenant.id)
    (husers : s'.users.map (fun u => (u.id, u.tenantId)) = s.users.map fun u => (u.id, u.tenantId))
    (hgrants : s'.userRoles = s.userRoles) : Sound s' := by
  have hids : s'.users.map User.id = s.users.map User.id := by
    simpa [Function.comp_def] using congrArg (List.map Prod.fst) husers
  have htids : s'.users.map User.tenantId = s.users.map User.tenantId := by
    simpa [Function.comp_def] using congrArg (List.map Prod.snd) husers
  refine ⟨?_, ?_, ?_⟩
  · intro u hu
    rw [htenants]
    obtain ⟨v, hv, heq⟩ := List.mem_map.mp (htids ▸ List.mem_map_of_mem hu)
    rw [← heq]
    exact h.tenant v hv
  · rw [hgrants, hids]
    exact h.user
  · rw [hgrants]
    exact h.lasting

theorem Sound.of_same (h : Sound s) (htenants : s'.tenants = s.tenants) (husers : s'.users = s.users)
    (hgrants : s'.userRoles = s.userRoles) : Sound s' :=
  h.of_ids (by rw [htenants]) (by rw [husers]) hgrants

theorem Sound.insertTenant (h : Sound s) {t : Tenant} (hinsert : s.insertTenant t = .ok s') :
    Sound s' ∧ t.id ∈ s'.tenants.map Tenant.id := by
  have hrows := insertTenant_rows hinsert
  have htenants : s'.tenants = s.tenants ++ [t] := congrArg Rows.tenants hrows
  have husers : s'.users = s.users := congrArg Rows.users hrows
  have hgrants : s'.userRoles = s.userRoles := congrArg Rows.userRoles hrows
  refine ⟨⟨?_, ?_, ?_⟩, ?_⟩
  · rw [husers, htenants, List.map_append]
    exact fun u hu => List.mem_append_left _ (h.tenant u hu)
  · rw [hgrants, husers]
    exact h.user
  · rw [hgrants]
    exact h.lasting
  · simp [htenants]

theorem Sound.insertUser (h : Sound s) {u : User} (hu : u.tenantId ∈ s.tenants.map Tenant.id)
    (hinsert : s.insertUser u = .ok s') : Sound s' ∧ u.id ∈ s'.users.map User.id := by
  have hrows := insertUser_rows hinsert
  have htenants : s'.tenants = s.tenants := congrArg Rows.tenants hrows
  have husers : s'.users = s.users ++ [u] := congrArg Rows.users hrows
  have hgrants : s'.userRoles = s.userRoles := congrArg Rows.userRoles hrows
  refine ⟨⟨?_, ?_, ?_⟩, ?_⟩
  · intro v hv
    rw [htenants]
    rw [husers] at hv
    cases List.mem_append.mp hv with
    | inl hv => exact h.tenant v hv
    | inr hv => exact List.mem_singleton.mp hv ▸ hu
  · rw [hgrants, husers, List.map_append]
    exact fun g hg => List.mem_append_left _ (h.user g hg)
  · rw [hgrants]
    exact h.lasting
  · simp [husers]

theorem Sound.assignRole (h : Sound s) {userId : Uuid} (hu : userId ∈ s.users.map User.id)
    (tenantId roleId : Uuid) : Sound (assignRole tenantId userId roleId s) := by
  unfold Identity.assignRole Store.addUserRole
  split_ifs with hkey
  · exact h
  · refine ⟨h.tenant, ?_, ?_⟩
    · intro g hg
      cases List.mem_append.mp hg with
      | inl hg => exact h.user g hg
      | inr hg =>
        rw [List.mem_singleton.mp hg]
        exact hu
    · intro g hg
      cases List.mem_append.mp hg with
      | inl hg => exact h.lasting g hg
      | inr hg => rw [List.mem_singleton.mp hg]

end Sound

/-! ### What each function finds or makes -/

section Functions
variable {s s' : Store} {host : Host}

theorem orText_again (first : Option String) (second : String) :
    orText first (orText first second) = orText first second := by
  unfold orText
  cases first with
  | none => rfl
  | some text =>
    dsimp only
    split_ifs <;> rfl

/-- The tenant `get_or_create_tenant` returns has the name it asks for. -/
structure TenantAt (scopeKey : String) (displayName : Option String) (s : Store) (t : Tenant) (created : Bool)
    (s' : Store) : Prop where
  found : getTenantByScopeKey scopeKey s' = some t
  named : orText displayName t.displayName = t.displayName
  rows : s'.rows = {s.rows with tenants := s'.tenants}
  fresh : created = true → getTenantByScopeKey scopeKey s = none ∧ t.id ∉ s.tenants.map Tenant.id
  kept : created = false → ∃ t₀, getTenantByScopeKey scopeKey s = some t₀ ∧ t₀.id = t.id
  sound : Sound s → Sound s'

theorem getOrCreateTenant_at {entraTenantId : Uuid} {scopeKey : String} {accountType : AccountType}
    {displayName : Option String} {t : Tenant} {created : Bool}
    (h : getOrCreateTenant host entraTenantId scopeKey accountType displayName s = .ok (t, created, s')) :
    TenantAt scopeKey displayName s t created s' := by
  unfold getOrCreateTenant at h
  cases hget : getTenantByScopeKey scopeKey s with
  | some t₀ =>
    simp only [hget] at h
    split_ifs at h with hsame
    · cases h
      exact ⟨hget, hsame, rfl, by simp, fun _ => ⟨t, hget, rfl⟩, id⟩
    · cases h
      refine ⟨?_, orText_again displayName t₀.displayName, rfl, by simp, fun _ => ⟨t₀, hget, rfl⟩, ?_⟩
      · have hkeys : ((fun t : Tenant => decide (t.identityScopeKey = scopeKey)) ∘
            renameTenant t₀.id (orText displayName t₀.displayName)) =
            fun t => decide (t.identityScopeKey = scopeKey) := by
          funext t
          rw [Function.comp_apply, renameTenant_eq]
        have hrenamed : renameTenant t₀.id (orText displayName t₀.displayName) t₀ =
            {t₀ with displayName := orText displayName t₀.displayName} := if_pos rfl
        show (s.tenants.map (renameTenant t₀.id (orText displayName t₀.displayName))).find? _ = _
        rw [List.find?_map, hkeys]
        exact (congrArg (Option.map _) hget).trans (congrArg some hrenamed)
      · refine fun hs => hs.of_ids ?_ rfl rfl
        simp only [Store.updateTenants, List.map_map]
        refine List.map_congr_left fun t _ => ?_
        rw [Function.comp_apply, renameTenant_eq]
  | none =>
    simp only [hget] at h
    obtain ⟨_, hinsert, hpair⟩ := map_eq_ok.mp h
    cases hpair
    have hrows := insertTenant_rows hinsert
    have htenants := congrArg Rows.tenants hrows
    refine ⟨?_, orText_again displayName _, ?_, fun _ => ⟨hget, ?_⟩, by simp, fun hs => (hs.insertTenant hinsert).1⟩
    · have hnone := List.find?_eq_none.mp hget
      rw [getTenantByScopeKey, show s'.tenants = _ from htenants, List.find?_append,
        List.find?_eq_none.mpr hnone]
      simp
    · rw [hrows, show s'.tenants = _ from htenants]
    · unfold Store.insertTenant at hinsert
      split_ifs at hinsert with _ _ hid
      exact hid

/-- The user `synchronize_user` returns. -/
structure UserAt (principal : TokenPrincipal) (tenantId : Uuid) (s : Store) (u : User) (s' : Store) : Prop where
  found : getUser tenantId principal.entraObjectId s' = some u
  takes : Store.takesUser principal.displayName principal.principalName = true
  rows : s'.rows = {s.rows with users := s'.users}
  fresh : getUser tenantId principal.entraObjectId s = none → u.id ∉ s.users.map User.id
  kept : ∀ u₀, getUser tenantId principal.entraObjectId s = some u₀ → u.id = u₀.id
  sound : Sound s → tenantId ∈ s.tenants.map Tenant.id → Sound s'

theorem synchronizeUser_at {principal : TokenPrincipal} {tenantId : Uuid} {u : User}
    (h : synchronizeUser host tenantId principal.entraObjectId principal.displayName principal.principalName s =
      .ok (u, s')) : UserAt principal tenantId s u s' := by
  unfold synchronizeUser at h
  cases hget : getUser tenantId principal.entraObjectId s with
  | some u₀ =>
    simp only [hget] at h
    split_ifs at h with htakes
    cases h
    have hid := signedIn_id u₀.id principal.displayName principal.principalName host.lastLoginAt
    have hkey := signedIn_key u₀.id principal.displayName principal.principalName host.lastLoginAt
    refine ⟨?_, htakes, rfl, by simp [hget], ?_, ?_⟩
    · have hkeys : ((fun u : User => decide (u.key = (tenantId, principal.entraObjectId))) ∘
          signedIn u₀.id principal.displayName principal.principalName host.lastLoginAt) =
          fun u => decide (u.key = (tenantId, principal.entraObjectId)) := by
        funext u
        rw [Function.comp_apply, hkey]
      show (s.users.map (signedIn u₀.id principal.displayName principal.principalName host.lastLoginAt)).find? _ = _
      rw [List.find?_map, hkeys]
      exact congrArg (Option.map _) hget
    · intro u₁ hu₁
      rw [hid, Option.some.inj (hget.symm.trans hu₁)]
    · refine fun hs _ => hs.of_ids rfl ?_ rfl
      simp only [Store.updateUsers, List.map_map]
      refine List.map_congr_left fun u _ => ?_
      rw [Function.comp_apply, hid, show (signedIn _ _ _ _ u).tenantId = u.tenantId from congrArg Prod.fst (hkey u)]
  | none =>
    simp only [hget] at h
    obtain ⟨_, hinsert, hpair⟩ := map_eq_ok.mp h
    cases hpair
    have hrows := insertUser_rows hinsert
    have husers := congrArg Rows.users hrows
    refine ⟨?_, ?_, ?_, fun _ => ?_, by simp [hget], fun hs ht => (hs.insertUser ht hinsert).1⟩
    · have hnone := List.find?_eq_none.mp hget
      rw [getUser, show s'.users = _ from husers, List.find?_append, List.find?_eq_none.mpr hnone]
      simp [User.key]
    · unfold Store.insertUser at hinsert
      split_ifs at hinsert with htakes
      simpa using htakes
    · rw [hrows, show s'.users = _ from husers]
    · unfold Store.insertUser at hinsert
      split_ifs at hinsert with _ hid
      exact hid

theorem getOrCreateRole_found {tenantId : Uuid} {name description : String} {r : Role}
    (h : getOrCreateRole host tenantId name description s = .ok (r, s')) :
    (s'.roles.find? fun r => r.tenantId = tenantId ∧ r.name = name) = some r ∧
      s'.rows = {s.rows with roles := s'.roles} := by
  unfold getOrCreateRole at h
  cases hget : s.roles.find? fun r => r.tenantId = tenantId ∧ r.name = name with
  | some r₀ =>
    simp only [hget] at h
    cases h
    exact ⟨hget, rfl⟩
  | none =>
    simp only [hget] at h
    obtain ⟨_, hinsert, hpair⟩ := map_eq_ok.mp h
    cases hpair
    have hrows := insertRole_rows hinsert
    have hroles := congrArg Rows.roles hrows
    refine ⟨?_, ?_⟩
    · rw [show s'.roles = _ from hroles, List.find?_append, hget]
      simp
    · rw [hrows, show s'.roles = _ from hroles]

theorem upsertOAuthConnection_rows {tenantId userId : Uuid} {encrypted : String} {scopes : List String}
    {authority : String} (h : upsertOAuthConnection host tenantId userId encrypted scopes authority s = .ok s') :
    s'.rows = {s.rows with connections := s'.connections} := by
  unfold upsertOAuthConnection at h
  cases hget : getOAuthConnection tenantId userId s with
  | some c =>
    simp only [hget] at h
    split_ifs at h
    cases h
    rfl
  | none =>
    simp only [hget] at h
    have hrows := insertConnection_rows h
    have hconnections := congrArg Rows.connections hrows
    rw [hrows, show s'.connections = _ from hconnections]

theorem addRolePermission_rolePermissions (s : Store) (g : RolePermission) :
    g ∈ (s.addRolePermission g).rolePermissions ∧
      ∀ g' ∈ s.rolePermissions, g' ∈ (s.addRolePermission g).rolePermissions := by
  unfold Store.addRolePermission
  split_ifs with hkey
  · exact ⟨hkey, fun _ h => h⟩
  · exact ⟨List.mem_append_right _ (List.mem_singleton_self g), fun _ h => List.mem_append_left _ h⟩

theorem grantPermissions_granted (role : Role) (permissionNames : List String) (s : Store) :
    ∀ p ∈ s.permissions, p.name ∈ permissionNames →
      ⟨role.id, p.id⟩ ∈ (grantPermissions role permissionNames s).rolePermissions := by
  have hall : ∀ (rows : List Permission) (s : Store),
      (∀ p ∈ rows, ⟨role.id, p.id⟩ ∈
        (rows.foldl (fun s p => s.addRolePermission ⟨role.id, p.id⟩) s).rolePermissions) ∧
      ∀ g ∈ s.rolePermissions, g ∈
        (rows.foldl (fun s p => s.addRolePermission ⟨role.id, p.id⟩) s).rolePermissions := by
    intro rows
    induction rows with
    | nil => exact fun s => ⟨fun p hp => absurd hp List.not_mem_nil, fun g hg => hg⟩
    | cons p rest ih =>
      intro s
      obtain ⟨hnew, hold⟩ := addRolePermission_rolePermissions s ⟨role.id, p.id⟩
      obtain ⟨hrest, hkept⟩ := ih (s.addRolePermission ⟨role.id, p.id⟩)
      refine ⟨?_, fun g hg => hkept g (hold g hg)⟩
      intro q hq
      cases List.mem_cons.mp hq with
      | inl heq => exact heq ▸ hkept _ hnew
      | inr hq => exact hrest q hq
  intro p hp hname
  exact (hall _ s).1 p (List.mem_filter.mpr ⟨hp, by simpa using hname⟩)

/-- Permissions that are granted already are not granted again. -/
theorem grantPermissions_again {role : Role} {permissionNames : List String}
    (h : ∀ p ∈ s.permissions, p.name ∈ permissionNames → ⟨role.id, p.id⟩ ∈ s.rolePermissions) :
    grantPermissions role permissionNames s = s := by
  have hall : ∀ rows : List Permission, (∀ p ∈ rows, ⟨role.id, p.id⟩ ∈ s.rolePermissions) →
      rows.foldl (fun s p => s.addRolePermission ⟨role.id, p.id⟩) s = s := by
    intro rows hrows
    induction rows with
    | nil => rfl
    | cons p rest ih =>
      have hstep : s.addRolePermission ⟨role.id, p.id⟩ = s := dif_pos (hrows p (List.mem_cons_self ..))
      rw [List.foldl_cons, hstep]
      exact ih fun q hq => hrows q (List.mem_cons_of_mem p hq)
  refine hall _ fun p hp => ?_
  obtain ⟨hp, hname⟩ := List.mem_filter.mp hp
  exact h p hp (by simpa using hname)

theorem assignRole_assigned (tenantId userId roleId : Uuid) (s : Store) :
    (⟨tenantId, userId, roleId, "tenant", "*", none⟩ : UserRole).key ∈
      (assignRole tenantId userId roleId s).userRoles.map UserRole.key := by
  unfold assignRole Store.addUserRole
  split_ifs with hkey
  · exact hkey
  · simp

theorem mem_assignRole {tenantId userId roleId : Uuid} {g : UserRole}
    (hg : g ∈ (assignRole tenantId userId roleId s).userRoles) : g ∈ s.userRoles ∨ g.roleId = roleId := by
  unfold assignRole Store.addUserRole at hg
  split_ifs at hg with hkey
  · exact .inl hg
  · refine (List.mem_append.mp hg).imp_right fun hg => ?_
    rw [List.mem_singleton.mp hg]

theorem assignRole_rows (tenantId userId roleId : Uuid) (s : Store) :
    (assignRole tenantId userId roleId s).rows =
      {s.rows with userRoles := (assignRole tenantId userId roleId s).userRoles} := by
  unfold assignRole Store.addUserRole
  split_ifs <;> rfl

end Functions

/-! ### A login -/

/-- The name `onboard_oauth_user` asks for. -/
def askedName (principal : TokenPrincipal) (tenantDisplayName : Option String) : Option String :=
  if isPersonalAccount principal.entraTenantId then some (orText tenantDisplayName principal.displayName)
  else tenantDisplayName

/-- The tables as a login of the principal leaves them, when the role it gives is the one
for `administrator`. -/
structure Settled (principal : TokenPrincipal) (tenantDisplayName : Option String) (administrator : Bool)
    (t : Tenant) (u : User) (r : Role) (s : Store) : Prop where
  tenant : getTenantByScopeKey (identityScopeKey principal.entraTenantId principal.entraObjectId) s = some t
  named : orText (askedName principal tenantDisplayName) t.displayName = t.displayName
  user : getUser t.id principal.entraObjectId s = some u
  takes : Store.takesUser principal.displayName principal.principalName = true
  role : (s.roles.find? fun r => r.tenantId = t.id ∧ r.name = (onboardingRole administrator).1) = some r
  granted : ∀ p ∈ s.permissions, p.name ∈ (onboardingRole administrator).2.2 →
    ⟨r.id, p.id⟩ ∈ s.rolePermissions
  assigned : (⟨t.id, u.id, r.id, "tenant", "*", none⟩ : UserRole).key ∈ s.userRoles.map UserRole.key

/-- What a login of the principal does. -/
structure LoggedIn (host : Host) (principal : TokenPrincipal) (tenantDisplayName : Option String) (s : Store)
    (identity : ResolvedIdentity) (administrator : Bool) (r : Role) (s' : Store) : Prop where
  decided : administrator = true ↔ ¬ HasUsers principal s
  settled : Settled principal tenantDisplayName administrator identity.tenant identity.user r s'
  /-- Grants that are new are of its role. -/
  grants : ∀ g ∈ s'.userRoles, g ∈ s.userRoles ∨ g.roleId = r.id
  returning : ∀ t u, getTenantByScopeKey (identityScopeKey principal.entraTenantId principal.entraObjectId) s =
    some t → getUser t.id principal.entraObjectId s = some u → identity.user.id = u.id
  newUser : Sound s → ¬ HasUsers principal s → identity.user.id ∉ s.users.map User.id
  roles : identity.roles = effectiveRoles host identity.tenant.id identity.user.id s'
  sound : Sound s → Sound s'

section Login
variable {s s₁ s₂ s₃ s' : Store} {host : Host} {principal : TokenPrincipal} {name : Option String} {t : Tenant}
  {created : Bool}

theorem hasUsers_iff_of_found {t₀ : Tenant}
    (hget : getTenantByScopeKey (identityScopeKey principal.entraTenantId principal.entraObjectId) s = some t₀) :
    HasUsers principal s ↔ countUsers t₀.id s ≠ 0 := by
  have hmem := List.mem_of_find?_eq_some hget
  have hkey : t₀.identityScopeKey = identityScopeKey principal.entraTenantId principal.entraObjectId := by
    simpa using List.find?_some hget
  have hcount : countUsers t₀.id s ≠ 0 ↔ ∃ u ∈ s.users, u.tenantId = t₀.id := by
    simp [countUsers, List.filter_eq_nil_iff]
  rw [hcount]
  refine ⟨?_, fun hu => ⟨t₀, hmem, hkey, hu⟩⟩
  rintro ⟨t, ht, htkey, hu⟩
  rwa [s.scopeKeys.eq ht hmem (htkey.trans hkey.symm)] at hu

/-- A login decides for administrator exactly when its workspace has no users. -/
theorem administrator_iff
    (htenant : TenantAt (identityScopeKey principal.entraTenantId principal.entraObjectId)
      (askedName principal name) s t created s₁) :
    (created || decide (countUsers t.id s₁ = 0)) = true ↔ ¬ HasUsers principal s := by
  cases created with
  | true =>
    refine iff_of_true rfl ?_
    rintro ⟨t', ht', hkey, -⟩
    have hnone := List.find?_eq_none.mp (htenant.fresh rfl).1 t' ht'
    simp [hkey] at hnone
  | false =>
    obtain ⟨t₀, hget, hid⟩ := htenant.kept rfl
    have husers : s₁.users = s.users := congrArg Rows.users htenant.rows
    rw [hasUsers_iff_of_found hget, Bool.false_or, decide_eq_true_eq, not_not, hid]
    unfold countUsers
    rw [husers]

/-- In a workspace without users the user is new. -/
theorem user_new {u : User}
    (htenant : TenantAt (identityScopeKey principal.entraTenantId principal.entraObjectId)
      (askedName principal name) s t created s₁)
    (huser : UserAt principal t.id s₁ u s₂) (hs : Sound s) (hnone : ¬ HasUsers principal s) :
    u.id ∉ s.users.map User.id := by
  have husers : s₁.users = s.users := congrArg Rows.users htenant.rows
  rw [← husers]
  refine huser.fresh (List.find?_eq_none.mpr fun v hv hkey => ?_)
  rw [husers] at hv
  have hv' : v.tenantId = t.id := congrArg Prod.fst (of_decide_eq_true hkey)
  cases created with
  | true => exact (htenant.fresh rfl).2 (hv' ▸ hs.tenant v hv)
  | false =>
    obtain ⟨t₀, hget, hid⟩ := htenant.kept rfl
    have hcount := (hasUsers_iff_of_found hget).not.mp hnone
    simp only [ne_eq, not_not, countUsers, List.length_eq_zero_iff, List.filter_eq_nil_iff,
      decide_eq_true_eq] at hcount
    exact hcount v hv (hv'.trans hid.symm)

theorem onboardOAuthUser_parts {encrypted authority : String} {scopes : List String} {identity : ResolvedIdentity}
    (h : onboardOAuthUser host principal name encrypted scopes authority s = .ok (identity, s')) :
    ∃ created s₁ s₂ r s₃,
      TenantAt (identityScopeKey principal.entraTenantId principal.entraObjectId) (askedName principal name) s
        identity.tenant created s₁ ∧
      UserAt principal identity.tenant.id s₁ identity.user s₂ ∧
      getOrCreateRole host identity.tenant.id
        (onboardingRole (created || countUsers identity.tenant.id s₁ = 0)).1
        (onboardingRole (created || countUsers identity.tenant.id s₁ = 0)).2.1 s₂ = .ok (r, s₃) ∧
      s'.rows = {(assignRole identity.tenant.id identity.user.id r.id (grantPermissions r
        (onboardingRole (created || countUsers identity.tenant.id s₁ = 0)).2.2 s₃)).rows with
          connections := s'.connections} ∧
      identity.roles = effectiveRoles host identity.tenant.id identity.user.id s' := by
  obtain ⟨⟨t, created, s₁⟩, h₁, h⟩ := bind_eq_ok.mp h
  obtain ⟨⟨u, s₂⟩, h₂, h⟩ := bind_eq_ok.mp h
  obtain ⟨⟨r, s₃⟩, h₃, h⟩ := bind_eq_ok.mp h
  obtain ⟨s₄, h₄, h⟩ := bind_eq_ok.mp h
  cases h
  exact ⟨created, s₁, s₂, r, s₃, getOrCreateTenant_at (of_statement h₁), synchronizeUser_at (of_statement h₂),
    of_statement h₃, upsertOAuthConnection_rows (of_statement h₄), rfl⟩

theorem onboardOAuthUser_loggedIn {encrypted authority : String} {scopes : List String}
    {identity : ResolvedIdentity}
    (h : onboardOAuthUser host principal name encrypted scopes authority s = .ok (identity, s')) :
    ∃ administrator r, LoggedIn host principal name s identity administrator r s' := by
  obtain ⟨created, s₁, s₂, r, s₃, htenant, huser, hrole, hrows, hroles⟩ := onboardOAuthUser_parts h
  obtain ⟨hfound, hroleRows⟩ := getOrCreateRole_found hrole
  generalize hadmin : (created || decide (countUsers identity.tenant.id s₁ = 0)) = administrator at *
  have hgrantRows := grantPermissions_rows r (onboardingRole administrator).2.2 s₃
  have hassignRows := assignRole_rows identity.tenant.id identity.user.id r.id
    (grantPermissions r (onboardingRole administrator).2.2 s₃)
  have e₁ := htenant.rows
  have e₂ := huser.rows
  simp only [Store.rows, Rows.mk.injEq] at e₁ e₂ hroleRows hgrantRows hassignRows hrows
  refine ⟨administrator, r, ?_, ⟨?_, htenant.named, ?_, huser.takes, ?_, ?_, ?_⟩, ?_, ?_, ?_, hroles, ?_⟩
  · rw [← hadmin]
    exact administrator_iff htenant
  · have htenants : s'.tenants = s₁.tenants := by grind
    unfold getTenantByScopeKey
    rw [htenants]
    exact htenant.found
  · have husers : s'.users = s₂.users := by grind
    unfold getUser
    rw [husers]
    exact huser.found
  · have hsame : s'.roles = s₃.roles := by grind
    rw [hsame]
    exact hfound
  · have hpermissions : s'.permissions = s₃.permissions := by grind
    have hsame : s'.rolePermissions =
      (grantPermissions r (onboardingRole administrator).2.2 s₃).rolePermissions := by grind
    rw [hpermissions, hsame]
    exact grantPermissions_granted r _ s₃
  · rw [hrows.2.2.2.2.2.1]
    exact assignRole_assigned _ _ _ _
  · intro g hg
    rw [hrows.2.2.2.2.2.1] at hg
    have hsame : (grantPermissions r (onboardingRole administrator).2.2 s₃).userRoles = s.userRoles := by grind
    exact hsame ▸ mem_assignRole hg
  · intro t u ht hu
    cases created with
    | true => simp [(htenant.fresh rfl).1] at ht
    | false =>
      obtain ⟨t₀, hget, hid⟩ := htenant.kept rfl
      obtain rfl := Option.some.inj (hget.symm.trans ht)
      refine huser.kept u ?_
      unfold getUser
      rw [e₁.2.1, ← hid]
      exact hu
  · exact user_new htenant huser
  · intro hs
    have hs₂ := huser.sound (htenant.sound hs) (List.mem_map_of_mem (List.mem_of_find?_eq_some htenant.found))
    have hs₃ : Sound (grantPermissions r (onboardingRole administrator).2.2 s₃) :=
      hs₂.of_same (by grind) (by grind) (by grind)
    have hu : identity.user.id ∈
        (grantPermissions r (onboardingRole administrator).2.2 s₃).users.map User.id := by
      have husers : (grantPermissions r (onboardingRole administrator).2.2 s₃).users = s₂.users := by grind
      rw [husers]
      exact List.mem_map_of_mem (List.mem_of_find?_eq_some huser.found)
    exact (hs₃.assignRole hu identity.tenant.id r.id).of_same hrows.1 hrows.2.1 hrows.2.2.2.2.2.1

end Login

/-! ### The login after it -/

section Again
variable {s s₁ s₂ : Store} {host later : Host} {principal : TokenPrincipal} {name : Option String} {t : Tenant}
  {u : User} {r : Role} {encrypted authority : String} {scopes : List String} {identity first second : ResolvedIdentity}

theorem getOrCreateTenant_again {entraTenantId : Uuid} {scopeKey : String} {accountType : AccountType}
    {displayName : Option String} (hget : getTenantByScopeKey scopeKey s = some t)
    (hnamed : orText displayName t.displayName = t.displayName) :
    getOrCreateTenant host entraTenantId scopeKey accountType displayName s = .ok (t, false, s) := by
  simp [getOrCreateTenant, hget, hnamed]

theorem countUsers_ne_zero (hu : getUser t.id principal.entraObjectId s = some u) : countUsers t.id s ≠ 0 := by
  have hkey : u.key = (t.id, principal.entraObjectId) := by simpa using List.find?_some hu
  have hmem : u ∈ s.users.filter fun u => u.tenantId = t.id :=
    List.mem_filter.mpr ⟨List.mem_of_find?_eq_some hu, decide_eq_true (congrArg Prod.fst hkey)⟩
  exact Nat.ne_of_gt (List.length_pos_of_mem hmem)

/-- Where the login of a reader has settled, the next one changes nothing. -/
theorem Settled.again (h : Settled principal name false t u r s)
    (hrun : onboardOAuthUser later principal name encrypted scopes authority s = .ok (identity, s₁)) :
    Unchanged s s₁ ∧ identity.tenant = t ∧ identity.user.id = u.id := by
  obtain ⟨⟨t', created, s'⟩, hT, hrun⟩ := bind_eq_ok.mp hrun
  have hT := of_statement hT
  rw [show (if isPersonalAccount principal.entraTenantId then some (orText name principal.displayName) else name) =
    askedName principal name from rfl, getOrCreateTenant_again h.tenant h.named] at hT
  cases hT
  obtain ⟨⟨u', s₂⟩, hU, hrun⟩ := bind_eq_ok.mp hrun
  have huser := synchronizeUser_at (of_statement hU)
  have hid := huser.kept u h.user
  have hrows := huser.rows
  simp only [Store.rows, Rows.mk.injEq] at hrows
  have hreader : (false || decide (countUsers t.id s = 0)) = false := by
    simpa using countUsers_ne_zero h.user
  dsimp only at hrun
  rw [hreader] at hrun
  obtain ⟨⟨r', s₃⟩, hR, hrun⟩ := bind_eq_ok.mp hrun
  have hR : getOrCreateRole later t.id (onboardingRole false).1 (onboardingRole false).2.1 s₂ = .ok (r', s₃) :=
    of_statement hR
  have hfound : (s₂.roles.find? fun r => r.tenantId = t.id ∧ r.name = (onboardingRole false).1) = some r := by
    rw [hrows.2.2.1]
    exact h.role
  rw [getOrCreateRole, hfound] at hR
  cases hR
  have hgrant : grantPermissions r (onboardingRole false).2.2 s₂ = s₂ := by
    apply grantPermissions_again
    rw [hrows.2.2.2.1, hrows.2.2.2.2.1]
    exact h.granted
  have hassign : assignRole t.id u'.id r.id s₂ = s₂ := by
    refine dif_pos ?_
    rw [hid, hrows.2.2.2.2.2.1]
    exact h.assigned
  obtain ⟨s₄, hC, hrun⟩ := bind_eq_ok.mp hrun
  have hC := upsertOAuthConnection_rows (of_statement hC)
  cases hrun
  rw [hgrant, hassign] at hC
  simp only [Store.rows, Rows.mk.injEq] at hC
  exact ⟨⟨hC.1.trans hrows.1, hC.2.2.1.trans hrows.2.2.1, hC.2.2.2.2.1.trans hrows.2.2.2.2.1,
    hC.2.2.2.2.2.1.trans hrows.2.2.2.2.2.1⟩, rfl, hid⟩

/-- Grants that last give the same roles at any time. -/
theorem effectiveRoles_lasting (hlasting : ∀ g ∈ s.userRoles, g.expiresAt = none) (hsame : Unchanged s s₁)
    (tenantId userId : Uuid) : effectiveRoles later tenantId userId s₁ = effectiveRoles host tenantId userId s := by
  have hheld : heldRoleIds tenantId userId later.rolesAt s₁ = heldRoleIds tenantId userId host.rolesAt s := by
    unfold heldRoleIds
    rw [hsame.userRoles]
    refine congrArg _ (List.filter_congr fun g hg => ?_)
    simp [hlasting g hg]
  unfold effectiveRoles
  rw [hheld, hsame.roles]

/-- After the login of an administrator the next one has something to add: its user has no
grant of Reader yet. -/
theorem changed_of_administrator (hs : Sound s)
    (h₁ : LoggedIn host principal name s first true r s₁) {r' : Role}
    (h₂ : LoggedIn later principal name s₁ second false r' s₂) : ¬ Unchanged s₁ s₂ := by
  intro hsame
  obtain ⟨g, hg, hkey⟩ := List.mem_map.mp h₂.settled.assigned
  simp only [UserRole.key, Prod.mk.injEq] at hkey
  rw [hsame.userRoles] at hg
  cases h₁.grants g hg with
  | inl hold =>
    have hid := h₂.returning first.tenant first.user h₁.settled.tenant h₁.settled.user
    refine h₁.newUser hs (h₁.decided.mp rfl) ?_
    rw [← hid, ← hkey.2.1]
    exact hs.user g hold
  | inr hnew =>
    have hr := List.mem_of_find?_eq_some h₁.settled.role
    have hr' := List.mem_of_find?_eq_some h₂.settled.role
    rw [hsame.roles] at hr'
    obtain rfl : r' = r := s₁.roleIds.eq hr' hr (hkey.2.2.1.symm.trans hnew)
    have hadministrator := List.find?_some h₁.settled.role
    have hreader := List.find?_some h₂.settled.role
    simp only [decide_eq_true_eq] at hadministrator hreader
    exact absurd (hadministrator.2.symm.trans hreader.2) (by decide)

end Again

/-! ### Whole runs -/

section Runs
variable {s s' : Store}

theorem bootstrapTenant_sound {host : Host} {settings : BootstrapSettings} {entraTenantId : Uuid} {t : Tenant}
    (hs : Sound s) (h : bootstrapTenant host settings entraTenantId s = .ok (t, s')) :
    Sound s' ∧ t.id ∈ s'.tenants.map Tenant.id := by
  unfold bootstrapTenant at h
  cases hget : getTenantByScopeKey (identityScopeKey entraTenantId 0) s with
  | some t₀ =>
    simp only [hget] at h
    cases h
    exact ⟨hs, List.mem_map_of_mem (List.mem_of_find?_eq_some hget)⟩
  | none =>
    simp only [hget] at h
    obtain ⟨_, hinsert, hpair⟩ := map_eq_ok.mp h
    cases hpair
    exact hs.insertTenant hinsert

theorem bootstrapAdmin_sound {host : Host} {settings : BootstrapSettings} {tenantId objectId : Uuid} {u : User}
    (hs : Sound s) (ht : tenantId ∈ s.tenants.map Tenant.id)
    (h : bootstrapAdmin host settings tenantId objectId s = .ok (u, s')) :
    Sound s' ∧ u.id ∈ s'.users.map User.id := by
  unfold bootstrapAdmin at h
  cases hget : getUser tenantId objectId s with
  | some u₀ =>
    simp only [hget] at h
    cases h
    exact ⟨hs, List.mem_map_of_mem (List.mem_of_find?_eq_some hget)⟩
  | none =>
    simp only [hget] at h
    obtain ⟨_, hinsert, hpair⟩ := map_eq_ok.mp h
    cases hpair
    exact hs.insertUser ht hinsert

theorem bootstrapIdentity_sound {host : Host} {permissionIds : String → Uuid} {settings : BootstrapSettings}
    (hs : Sound s) (h : bootstrapIdentity host permissionIds settings s = .ok s') : Sound s' := by
  unfold bootstrapIdentity at h
  obtain ⟨s₁, hpermissions, h⟩ := bind_eq_ok.mp h
  have hrows := bootstrapPermissions_rows hpermissions
  have hs₁ : Sound s₁ :=
    hs.of_same (congrArg Rows.tenants hrows) (congrArg Rows.users hrows) (congrArg Rows.userRoles hrows)
  cases htenant : settings.tenantId with
  | none =>
    rw [htenant] at h
    cases h
    exact hs₁
  | some entraTenantId =>
    rw [htenant] at h
    obtain ⟨⟨t, s₂⟩, h₂, h⟩ := bind_eq_ok.mp h
    obtain ⟨hs₂, ht⟩ := bootstrapTenant_sound hs₁ h₂
    obtain ⟨⟨r, s₃⟩, h₃, h⟩ := bind_eq_ok.mp h
    have hrole := (getOrCreateRole_found h₃).2
    have hgrant := grantPermissions_rows r (permissionDescriptions.map Prod.fst) s₃
    simp only [Store.rows, Rows.mk.injEq] at hrole hgrant
    have hs₄ : Sound (grantPermissions r (permissionDescriptions.map Prod.fst) s₃) :=
      hs₂.of_same (hgrant.1.trans hrole.1) (hgrant.2.1.trans hrole.2.1)
        (hgrant.2.2.2.2.2.1.trans hrole.2.2.2.2.2.1)
    cases hadmin : settings.adminObjectId with
    | none =>
      rw [hadmin] at h
      cases h
      exact hs₄
    | some objectId =>
      rw [hadmin] at h
      obtain ⟨⟨u, s₅⟩, h₅, h⟩ := bind_eq_ok.mp h
      have ht₄ : t.id ∈ (grantPermissions r (permissionDescriptions.map Prod.fst) s₃).tenants.map Tenant.id := by
        rw [hgrant.1, hrole.1]
        exact ht
      obtain ⟨hs₅, hu⟩ := bootstrapAdmin_sound hs₄ ht₄ h₅
      cases h
      exact hs₅.assignRole hu t.id r.id

theorem sound_step {action : Action} (hs : Sound s) (hstep : step action s = some s') : Sound s' := by
  cases action with
  | bootstrap host permissionIds settings =>
    simp only [step] at hstep
    cases hresult : bootstrapIdentity host permissionIds settings s with
    | error f => simp [hresult] at hstep
    | ok s'' =>
      rw [hresult] at hstep
      cases hstep
      exact bootstrapIdentity_sound hs hresult
  | request w host r =>
    cases hstep
    refine handle_keeps hs ?_ ?_ ?_ r
    · intro p identity s' hresolve
      unfold resolveAndSync at hresolve
      split at hresolve
      case h_1 => cases hresolve
      case h_2 t hget =>
        split_ifs at hresolve
        obtain ⟨⟨u, s₁⟩, hsync, hresolve⟩ := bind_eq_ok.mp hresolve
        have hs₁ := (synchronizeUser_at (of_statement hsync)).sound hs
          (List.mem_map_of_mem (List.mem_of_find?_eq_some hget))
        dsimp only at hresolve
        split_ifs at hresolve
        cases hresolve
        exact hs₁
    · intro p encrypted authority identity s' honboard
      obtain ⟨administrator, r, hlogin⟩ := onboardOAuthUser_loggedIn honboard
      exact hlogin.sound hs
    · intro tenantId userId encrypted authority s' hconnect
      have hrows := upsertOAuthConnection_rows hconnect
      exact hs.of_same (congrArg Rows.tenants hrows) (congrArg Rows.users hrows) (congrArg Rows.userRoles hrows)
  | setStatus tenantId status =>
    cases hstep
    refine hs.of_ids ?_ rfl rfl
    simp only [Store.updateTenants, List.map_map]
    refine List.map_congr_left fun t _ => ?_
    unfold setStatus
    rw [Function.comp_apply]
    split_ifs <;> rfl
  | setActive userId isActive =>
    cases hstep
    refine hs.of_ids rfl ?_ rfl
    simp only [Store.updateUsers, List.map_map]
    refine List.map_congr_left fun u _ => ?_
    unfold setActive
    rw [Function.comp_apply]
    split_ifs <;> rfl

theorem sound_empty : Sound .empty := ⟨by simp [Store.empty], by simp [Store.empty], by simp [Store.empty]⟩

theorem sound_of_reached (h : Reached s) : Sound s :=
  h.invariant sound_empty fun _ _ _ hs hstep => sound_step hs hstep

end Runs

/-! ### Twice -/

section Twice
variable {s s₁ s₂ : Store} {host later : Host} {principal : TokenPrincipal} {tenantDisplayName : Option String}
  {encrypted encrypted' authority authority' : String} {scopes scopes' : List String}
  {first second : ResolvedIdentity}

/-- **A login that is repeated changes no authorisation data exactly when its workspace had
users before**, and then it returns the same roles. -/
theorem repeated_login_iff (hs : Reached s)
    (h₁ : onboardOAuthUser host principal tenantDisplayName encrypted scopes authority s = .ok (first, s₁))
    (h₂ : onboardOAuthUser later principal tenantDisplayName encrypted' scopes' authority' s₁ =
      .ok (second, s₂)) :
    (Unchanged s₁ s₂ ∧ ∀ name, name ∈ second.roleNames ↔ name ∈ first.roleNames) ↔ HasUsers principal s := by
  have hsound := sound_of_reached hs
  obtain ⟨administrator, r, hfirst⟩ := onboardOAuthUser_loggedIn h₁
  obtain ⟨administrator', r', hsecond⟩ := onboardOAuthUser_loggedIn h₂
  have hsettled := hfirst.settled
  have husers : HasUsers principal s₁ :=
    (hasUsers_iff_of_found hsettled.tenant).mpr (countUsers_ne_zero hsettled.user)
  cases administrator with
  | true =>
    have hreader : administrator' = false := by
      rw [← Bool.not_eq_true, hsecond.decided]
      exact not_not.mpr husers
    rw [hreader] at hsecond
    refine iff_of_false (fun h => ?_) (hfirst.decided.mp rfl)
    exact changed_of_administrator hsound hfirst hsecond h.1
  | false =>
    have hnone : HasUsers principal s := by
      by_contra hnone
      exact absurd (hfirst.decided.mpr hnone) (by decide)
    refine iff_of_true ?_ hnone
    obtain ⟨hsame, htenant, huser⟩ := hsettled.again h₂
    refine ⟨hsame, fun name => ?_⟩
    have hroles : second.roles = first.roles := by
      rw [hsecond.roles, hfirst.roles, htenant, huser]
      exact effectiveRoles_lasting (hfirst.sound hsound).lasting hsame _ _
    rw [ResolvedIdentity.roleNames, ResolvedIdentity.roleNames, hroles]

end Twice

def sampleLogin (host : Host) (s : Store) : Except Rejection (ResolvedIdentity × Store) :=
  onboardOAuthUser host samplePrincipal none "fernet:refresh" oauthScopes "5" s

/-- The login of the first user of a tenant, twice. -/
theorem first_login_repeated : ¬ ∀ first s₁ second s₂, sampleLogin sampleHost .empty = .ok (first, s₁) →
    sampleLogin laterHost s₁ = .ok (second, s₂) →
    Unchanged s₁ s₂ ∧ ∀ name, name ∈ second.roleNames ↔ name ∈ first.roleNames := by
  have hruns : ((sampleLogin sampleHost .empty).toOption.any fun r => (sampleLogin laterHost r.2).toOption.any
      fun r' => r'.2.userRoles.length = 2 && r.2.userRoles.length = 1) = true := by decide +kernel
  obtain ⟨⟨first, s₁⟩, hfirst, hruns⟩ := (Option.any_eq_true _ _).mp hruns
  obtain ⟨⟨second, s₂⟩, hsecond, hcounts⟩ := (Option.any_eq_true _ _).mp hruns
  intro h
  have hsame := (h first s₁ second s₂ (toOption_eq_some.mp hfirst) (toOption_eq_some.mp hsecond)).1.userRoles
  simp [hsame] at hcounts
  omega

/-- The administrator a bootstrap configured logs in, twice. -/
theorem repeated_login_iff_configured : ∃ s first s₁ second s₂, Reached s ∧
    sampleLogin laterHost s = .ok (first, s₁) ∧ sampleLogin sampleHost s₁ = .ok (second, s₂) ∧
    ((Unchanged s₁ s₂ ∧ ∀ name, name ∈ second.roleNames ↔ name ∈ first.roleNames) ↔
      HasUsers samplePrincipal s) := by
  have hruns : ((bootstrapIdentity sampleHost samplePermissionIds (sampleSettings (some 5) (some 6))
      .empty).toOption.any fun s => (sampleLogin laterHost s).toOption.any fun r =>
        (sampleLogin sampleHost r.2).toOption.isSome) = true := by decide +kernel
  obtain ⟨s, hboot, hruns⟩ := (Option.any_eq_true _ _).mp hruns
  obtain ⟨⟨first, s₁⟩, hfirst, hruns⟩ := (Option.any_eq_true _ _).mp hruns
  obtain ⟨⟨second, s₂⟩, hsecond⟩ := Option.isSome_iff_exists.mp hruns
  have hs : Reached s := by
    refine ⟨[.bootstrap sampleHost samplePermissionIds (sampleSettings (some 5) (some 6))], ?_⟩
    simp only [run, step, toOption_eq_some.mp hboot, Option.bind_some]
  have h₁ := toOption_eq_some.mp hfirst
  have h₂ := toOption_eq_some.mp hsecond
  exact ⟨s, first, s₁, second, s₂, hs, h₁, h₂, repeated_login_iff hs h₁ h₂⟩

end Sentinel.Identity
