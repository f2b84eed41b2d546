import Sentinel.Identity.Revocation
import Sentinel.Identity.Writes

/-! Who may do what.

Roles are rows like any other, but only two names are ever inserted, a grant is made to a
user of the role's own tenant, and Reader is only ever given the four permissions to read.
So whatever requests a deployment answered, a user has more than those four only as an
administrator of their own tenant (`privileged`), and becomes one only as `appointed`
allows.

Requests are taken one at a time here: a step is a whole transaction, from its first
statement to its commit. `privileged` is about rows and does not need that. `appointed`
does: of two first callbacks of a workspace that cross, each counts no user and both make an
administrator (`administrators_miscounted`). -/
namespace Sentinel.Identity
open Library Library.Fallible Transition

/-! ### What the tables keep -/

/-- The grant is one of a user in the tenant, of a role of the tenant, for good. -/
def Granted (s : Store) (g : UserRole) : Prop :=
  (∃ u ∈ s.users, u.id = g.userId ∧ u.tenantId = g.tenantId) ∧
    (∃ r ∈ s.roles, r.id = g.roleId ∧ r.tenantId = g.tenantId) ∧ g.expiresAt = none

/-- The role carries a permission its name stands for. -/
def Carried (s : Store) (g : RolePermission) : Prop :=
  ∃ r ∈ s.roles, ∃ p ∈ s.permissions, r.id = g.roleId ∧ p.id = g.permissionId ∧
    ∃ administrator, r.name = (onboardingRole administrator).1 ∧ p.name ∈ (onboardingRole administrator).2.2

structure Confined (s : Store) : Prop where
  role : ∀ r ∈ s.roles, ∃ administrator, r.name = (onboardingRole administrator).1
  grant : ∀ g ∈ s.userRoles, Granted s g
  permission : ∀ g ∈ s.rolePermissions, Carried s g

section Confined
variable {s s' : Store}

theorem Granted.mono {g : UserRole} (h : Granted s g) (hs : Extends s s') : Granted s' g := by
  obtain ⟨⟨u, hu, hid, htenant⟩, ⟨r, hr, hrole⟩, hlasting⟩ := h
  obtain ⟨u', hu', hid', hkey'⟩ := hs.users u hu
  refine ⟨⟨u', hu', hid'.trans hid, ?_⟩, ⟨r, hs.roles hr, hrole⟩, hlasting⟩
  exact (congrArg Prod.fst hkey').trans htenant

theorem Carried.mono {g : RolePermission} (h : Carried s g) (hs : Extends s s') : Carried s' g := by
  obtain ⟨r, hr, p, hp, hrest⟩ := h
  exact ⟨r, hs.roles hr, p, hs.permissions hp, hrest⟩

theorem Confined.extend (h : Confined s) (hs : Extends s s')
    (hrole : ∀ r ∈ s'.roles, r ∈ s.roles ∨ ∃ administrator, r.name = (onboardingRole administrator).1)
    (hgrant : ∀ g ∈ s'.userRoles, g ∈ s.userRoles ∨ Granted s' g)
    (hpermission : ∀ g ∈ s'.rolePermissions, g ∈ s.rolePermissions ∨ Carried s' g) : Confined s' where
  role := fun r hr => (hrole r hr).elim (h.role r) id
  grant := fun g hg => (hgrant g hg).elim (fun hg => (h.grant g hg).mono hs) id
  permission := fun g hg => (hpermission g hg).elim (fun hg => (h.permission g hg).mono hs) id

theorem mem_snoc {ρ : Type} {rows : List ρ} {r q : ρ} (h : q ∈ rows ++ [r]) : q ∈ rows ∨ q = r :=
  (List.mem_append.mp h).imp_right List.mem_singleton.mp

/-- The grant made, or one there was. -/
theorem mem_of_assignRole {tenantId userId roleId : Uuid} {g : UserRole}
    (h : g ∈ (assignRole tenantId userId roleId s).userRoles) :
    g ∈ s.userRoles ∨ g = ⟨tenantId, userId, roleId, "tenant", "*", none⟩ := by
  unfold assignRole Store.addUserRole at h
  split_ifs at h
  · exact .inl h
  · exact mem_snoc h

/-- A statement on other tables. -/
theorem Confined.of_same (h : Confined s) (hs : Extends s s') (hroles : s'.roles = s.roles)
    (hgrants : s'.userRoles = s.userRoles) (hcarried : s'.rolePermissions = s.rolePermissions) : Confined s' :=
  h.extend hs (fun _ hr => .inl (hroles ▸ hr)) (fun _ hg => .inl (hgrants ▸ hg)) fun _ hg => .inl (hcarried ▸ hg)

theorem confined_write (h : Confined s) (hwrite : Write s s') : Confined s' := by
  have hs := write_extends hwrite
  cases hwrite with
  | tenant t oid _ hinsert hkey =>
    have hrows := insertTenant_rows hinsert
    exact h.of_same hs (congrArg Rows.roles hrows) (congrArg Rows.userRoles hrows)
      (congrArg Rows.rolePermissions hrows)
  | user u _ hinsert htenant =>
    have hrows := insertUser_rows hinsert
    exact h.of_same hs (congrArg Rows.roles hrows) (congrArg Rows.userRoles hrows)
      (congrArg Rows.rolePermissions hrows)
  | role r administrator _ hinsert hname htenant =>
    have hrows := insertRole_rows hinsert
    have hgrants : s'.userRoles = s.userRoles := congrArg Rows.userRoles hrows
    have hcarried : s'.rolePermissions = s.rolePermissions := congrArg Rows.rolePermissions hrows
    refine h.extend hs (fun q hq => ?_) (fun g hg => .inl (hgrants ▸ hg)) fun g hg => .inl (hcarried ▸ hg)
    rw [show s'.roles = _ from congrArg Rows.roles hrows] at hq
    refine (mem_snoc hq).imp_right fun heq => ⟨administrator, ?_⟩
    rw [heq, hname]
  | permission p _ hinsert =>
    have hrows := insertPermission_rows hinsert
    exact h.of_same hs (congrArg Rows.roles hrows) (congrArg Rows.userRoles hrows)
      (congrArg Rows.rolePermissions hrows)
  | rolePermission r p administrator hr hp hrole hpermission =>
    have hsame : (s.addRolePermission ⟨r.id, p.id⟩).roles = s.roles ∧
        (s.addRolePermission ⟨r.id, p.id⟩).userRoles = s.userRoles := by
      unfold Store.addRolePermission
      split_ifs <;> exact ⟨rfl, rfl⟩
    refine h.extend hs (fun q hq => .inl (hsame.1 ▸ hq)) (fun g hg => .inl (hsame.2 ▸ hg)) fun g hg => ?_
    by_cases hold : g ∈ s.rolePermissions
    · exact .inl hold
    · have heq : g = ⟨r.id, p.id⟩ := by
        unfold Store.addRolePermission at hg
        split_ifs at hg
        · exact absurd hg hold
        · exact (mem_snoc hg).resolve_left hold
      right
      rw [heq]
      exact ⟨r, hs.roles hr, p, hs.permissions hp, rfl, rfl, administrator, hrole, hpermission⟩
  | userRole tenantId u r hu hr huser hrole =>
    have hsame := assignRole_same tenantId u.id r.id s
    have hcarried : (assignRole tenantId u.id r.id s).rolePermissions = s.rolePermissions :=
      congrArg Rows.rolePermissions (assignRole_rows tenantId u.id r.id s)
    refine h.extend hs (fun q hq => .inl (hsame.roles ▸ hq)) (fun g hg => ?_) fun g hg => .inl (hcarried ▸ hg)
    refine (mem_of_assignRole hg).imp_right fun heq => ?_
    rw [heq]
    refine ⟨⟨u, ?_, rfl, huser⟩, ⟨r, ?_, rfl, hrole⟩, rfl⟩
    · rw [hsame.users]
      exact hu
    · rw [hsame.roles]
      exact hr
  | connection c _ hinsert =>
    have hrows := insertConnection_rows hinsert
    exact h.of_same hs (congrArg Rows.roles hrows) (congrArg Rows.userRoles hrows)
      (congrArg Rows.rolePermissions hrows)
  | tenants f hf => exact h.of_same hs rfl rfl rfl
  | users f hid hkey => exact h.of_same hs rfl rfl rfl
  | connections f hid hkey => exact h.of_same hs rfl rfl rfl

theorem confined_empty : Confined .empty := ⟨by simp [Store.empty], by simp [Store.empty], by simp [Store.empty]⟩

theorem confined_step {a : Action} (h : Confined s) (hstep : step a s = some s') : Confined s' :=
  writes_keep (fun _ _ h hwrite => confined_write h hwrite) h (step_writes hstep)

end Confined

/-! ### What a user may do -/

/-- What `effective_roles` and `effective_permissions` tell of any user. -/
structure Privileged (s : Store) : Prop where
  /-- The roles are of the user's tenant, and of the two kinds there are. -/
  roles : ∀ host tenantId userId, ∀ r ∈ effectiveRoles host tenantId userId s,
    r.tenantId = tenantId ∧ ∃ administrator, r.name = (onboardingRole administrator).1
  /-- The permissions are those its roles carry. -/
  permissions : ∀ host tenantId userId p, p ∈ effectivePermissions host tenantId userId s ↔
    p ∈ s.permissions ∧ ∃ r ∈ effectiveRoles host tenantId userId s, ⟨r.id, p.id⟩ ∈ s.rolePermissions
  /-- Only an administrator has more than the permissions to read. -/
  reader : ∀ host tenantId userId, ∀ p ∈ effectivePermissions host tenantId userId s,
    p.name ∉ readerPermissions →
      ∃ r ∈ effectiveRoles host tenantId userId s, r.name = "TenantAdministrator"
  /-- Nobody has a permission in a tenant that is not theirs. -/
  member : ∀ host tenantId userId, effectivePermissions host tenantId userId s ≠ [] →
    ∃ u ∈ s.users, u.id = userId ∧ u.tenantId = tenantId
  /-- The permissions come in the order of their names, each once. -/
  sorted : ∀ host tenantId userId,
    (effectivePermissions host tenantId userId s).Pairwise fun p q => p.name < q.name

section Privileged
variable {s : Store} {host : Host} {tenantId userId : Uuid}

theorem mem_heldRoleIds {now : Instant} {roleId : Uuid} : roleId ∈ heldRoleIds tenantId userId now s ↔
    ∃ g ∈ s.userRoles, g.tenantId = tenantId ∧ g.userId = userId ∧ g.roleId = roleId ∧
      g.expiresAt.all fun expiry => now < expiry := by
  simp only [heldRoleIds, List.mem_map, List.mem_filter, decide_eq_true_eq]
  refine ⟨?_, ?_⟩
  · rintro ⟨g, ⟨hg, htenant, huser, hlasting⟩, hrole⟩
    exact ⟨g, hg, htenant, huser, hrole, hlasting⟩
  · rintro ⟨g, hg, htenant, huser, hrole, hlasting⟩
    exact ⟨g, ⟨hg, htenant, huser, hlasting⟩, hrole⟩

theorem mem_effectiveRoles {r : Role} : r ∈ effectiveRoles host tenantId userId s ↔
    r ∈ s.roles ∧ r.id ∈ heldRoleIds tenantId userId host.rolesAt s := by
  rw [effectiveRoles, (Query.orderBy_perm _).mem_iff, List.mem_filter, decide_eq_true_eq]

/-- Grants are for good, so the instant does not matter. -/
theorem Confined.held (h : Confined s) {now later : Instant} {roleId : Uuid}
    (hheld : roleId ∈ heldRoleIds tenantId userId now s) : roleId ∈ heldRoleIds tenantId userId later s := by
  obtain ⟨g, hg, htenant, huser, hrole, -⟩ := mem_heldRoleIds.mp hheld
  refine mem_heldRoleIds.mpr ⟨g, hg, htenant, huser, hrole, ?_⟩
  rw [(h.grant g hg).2.2]
  rfl

theorem Confined.mem_effectivePermissions (h : Confined s) {p : Permission} :
    p ∈ effectivePermissions host tenantId userId s ↔
      p ∈ s.permissions ∧ ∃ r ∈ effectiveRoles host tenantId userId s, ⟨r.id, p.id⟩ ∈ s.rolePermissions := by
  rw [effectivePermissions, (Query.orderBy_perm _).mem_iff, List.mem_filter]
  refine and_congr_right fun hp => ?_
  simp only [List.any_eq_true, decide_eq_true_eq, Bool.decide_and, Bool.and_eq_true]
  refine ⟨?_, ?_⟩
  · rintro ⟨⟨roleId, permissionId⟩, hg, heq, hrole, hheld⟩
    obtain ⟨r, hr, rfl⟩ := List.mem_map.mp hrole
    cases heq
    exact ⟨r, mem_effectiveRoles.mpr ⟨hr, h.held hheld⟩, hg⟩
  · rintro ⟨r, hr, hg⟩
    obtain ⟨hrole, hheld⟩ := mem_effectiveRoles.mp hr
    exact ⟨⟨r.id, p.id⟩, hg, rfl, List.mem_map_of_mem hrole, h.held hheld⟩

/-- A role a user holds is of the tenant it is held in, where the user is. -/
theorem Confined.of_held (h : Confined s) {r : Role} (hr : r ∈ effectiveRoles host tenantId userId s) :
    r.tenantId = tenantId ∧ ∃ u ∈ s.users, u.id = userId ∧ u.tenantId = tenantId := by
  obtain ⟨hr, hheld⟩ := mem_effectiveRoles.mp hr
  obtain ⟨g, hg, htenant, huser, hrole, -⟩ := mem_heldRoleIds.mp hheld
  obtain ⟨⟨u, hu, hid, hin⟩, ⟨q, hq, hqid, hqtenant⟩, -⟩ := h.grant g hg
  refine ⟨?_, u, hu, hid.trans huser, hin.trans htenant⟩
  rw [s.roleIds.eq hr hq (hrole.symm.trans hqid.symm), hqtenant, htenant]

/-- A permission beyond reading is one of a role of administrators. -/
theorem Confined.administrator_of_carried (h : Confined s) {r : Role} {p : Permission} (hr : r ∈ s.roles)
    (hp : p ∈ s.permissions) (hg : ⟨r.id, p.id⟩ ∈ s.rolePermissions) (hname : p.name ∉ readerPermissions) :
    r.name = "TenantAdministrator" := by
  obtain ⟨q, hq, p', hp', hqid, hpid, administrator, hqname, hcarried⟩ := h.permission _ hg
  rw [← s.roleIds.eq hq hr hqid, hqname]
  rw [s.permissionIds.eq hp' hp hpid] at hcarried
  cases administrator with
  | true => rfl
  | false => exact absurd hcarried hname

theorem sorted_effectivePermissions :
    (effectivePermissions host tenantId userId s).Pairwise fun p q => p.name < q.name := by
  unfold effectivePermissions
  generalize hrows : s.permissions.filter _ = rows
  have hnames : Table.Unique Permission.name rows := by
    rw [← hrows]
    exact (List.filter_sublist.map Permission.name).nodup s.permissionNames
  have hsorted : (Query.orderBy (fun a b : Permission => a.name ≤ b.name) rows).Pairwise
      fun a b => a.name ≤ b.name := by
    have : Std.Total fun a b : Permission => a.name ≤ b.name := ⟨fun a b => le_total a.name b.name⟩
    have : IsTrans Permission fun a b => a.name ≤ b.name := ⟨fun _ _ _ => le_trans⟩
    exact List.pairwise_insertionSort _ _
  have hdistinct : (Query.orderBy (fun a b : Permission => a.name ≤ b.name) rows).Pairwise
      fun a b => a.name ≠ b.name :=
    List.pairwise_map.mp (((Query.orderBy_perm rows).map Permission.name).nodup_iff.mpr hnames)
  exact (hsorted.and hdistinct).imp fun h => lt_of_le_of_ne h.1 h.2

theorem privileged_of_confined (h : Confined s) : Privileged s where
  roles := fun _ _ _ r hr => ⟨(h.of_held hr).1, h.role r (mem_effectiveRoles.mp hr).1⟩
  permissions := fun _ _ _ _ => h.mem_effectivePermissions
  reader := by
    intro host tenantId userId p hp hname
    obtain ⟨hp, r, hr, hg⟩ := h.mem_effectivePermissions.mp hp
    exact ⟨r, hr, h.administrator_of_carried (mem_effectiveRoles.mp hr).1 hp hg hname⟩
  member := by
    intro host tenantId userId hsome
    obtain ⟨p, hp⟩ := List.exists_mem_of_ne_nil _ hsome
    obtain ⟨-, r, hr, -⟩ := h.mem_effectivePermissions.mp hp
    exact (h.of_held hr).2
  sorted := fun _ _ _ => sorted_effectivePermissions

end Privileged

/-- **Nobody has more than the four permissions to read but an administrator of their own
tenant**, and nobody anything in another tenant, in every state of every run. -/
theorem privileged (actions : List Action) : Always step Privileged actions .empty :=
  (Always.of_invariant actions confined_empty fun _ _ _ h hstep => confined_step h hstep).mono
    fun _ h => privileged_of_confined h

/-! ### Who becomes an administrator -/

def Administers (s : Store) (tenantId userId : Uuid) : Prop :=
  ∃ g ∈ s.userRoles, g.tenantId = tenantId ∧ g.userId = userId ∧
    ∃ r ∈ s.roles, r.id = g.roleId ∧ r.name = "TenantAdministrator"

/-- The user is the account with this object id, in the workspace with this key. -/
def IsAccount (s : Store) (scopeKey : String) (entraObjectId tenantId userId : Uuid) : Prop :=
  (∃ t ∈ s.tenants, t.id = tenantId ∧ t.identityScopeKey = scopeKey) ∧
    ∃ u ∈ s.users, u.id = userId ∧ u.key = (tenantId, entraObjectId)

/-- The step may make the user an administrator: a bootstrap that names them, or their own
login to a workspace without users. -/
def Appoints (s : Store) (action : Action) (s' : Store) (tenantId userId : Uuid) : Prop :=
  match action with
  | .bootstrap _ _ settings => ∃ entraTenantId objectId, settings.tenantId = some entraTenantId ∧
      settings.adminObjectId = some objectId ∧
      IsAccount s' (identityScopeKey entraTenantId 0) objectId tenantId userId
  | .request w _ (.callback r) => ∃ p encrypted, Admits w r p encrypted ∧ ¬ HasUsers p s ∧
      IsAccount s' (identityScopeKey p.entraTenantId p.entraObjectId) p.entraObjectId tenantId userId
  | _ => False

/-- Whoever the step makes an administrator it may. -/
def Appointed (s : Store) (action : Action) (s' : Store) : Prop :=
  ∀ tenantId userId, ¬ Administers s tenantId userId → Administers s' tenantId userId →
    Appoints s action s' tenantId userId

section Appointed
variable {s s' : Store} {host : Host}

/-- A new administrator has a new grant. -/
theorem Confined.new_grant (h : Confined s) (hs : Extends s s') {tenantId userId : Uuid}
    (hbefore : ¬ Administers s tenantId userId) (hafter : Administers s' tenantId userId) :
    ∃ g ∈ s'.userRoles, g ∉ s.userRoles ∧ g.tenantId = tenantId ∧ g.userId = userId ∧
      ∃ r ∈ s'.roles, r.id = g.roleId ∧ r.name = "TenantAdministrator" := by
  obtain ⟨g, hg, htenant, huser, r, hr, hid, hname⟩ := hafter
  refine ⟨g, hg, fun hold => hbefore ?_, htenant, huser, r, hr, hid, hname⟩
  obtain ⟨-, ⟨q, hq, hqid, -⟩, -⟩ := h.grant g hold
  have heq : q = r := s'.roleIds.eq (hs.roles hq) hr (hqid.trans hid.symm)
  exact ⟨g, hold, htenant, huser, q, hq, hqid, heq ▸ hname⟩

/-- Without a new grant nobody becomes one. -/
theorem Confined.nobody_new (h : Confined s) (hs : Extends s s') (hgrants : s'.userRoles = s.userRoles)
    {tenantId userId : Uuid} (hbefore : ¬ Administers s tenantId userId)
    (hafter : Administers s' tenantId userId) : False := by
  obtain ⟨g, hg, hnew, -⟩ := h.new_grant hs hbefore hafter
  exact hnew (hgrants ▸ hg)

/-- The account a login returns is there. -/
theorem onboardOAuthUser_account {p : TokenPrincipal} {name : Option String} {encrypted authority : String}
    {scopes : List String} {identity : ResolvedIdentity}
    (h : onboardOAuthUser host p name encrypted scopes authority s = .ok (identity, s')) :
    identity.tenant ∈ s'.tenants ∧
      identity.tenant.identityScopeKey = identityScopeKey p.entraTenantId p.entraObjectId ∧
      identity.user ∈ s'.users ∧ identity.user.key = (identity.tenant.id, p.entraObjectId) := by
  obtain ⟨administrator, r, hlogin⟩ := onboardOAuthUser_loggedIn h
  have ht := hlogin.settled.tenant
  obtain ⟨hu, hkeys⟩ := mem_of_getUser hlogin.settled.user
  unfold getTenantByScopeKey at ht
  exact ⟨List.mem_of_find?_eq_some ht, by simpa using List.find?_some ht, hu, Prod.ext hkeys.1 hkeys.2⟩

theorem onboardOAuthUser_appointed {p : TokenPrincipal} {name : Option String} {encrypted authority : String}
    {scopes : List String} {identity : ResolvedIdentity} (h : Confined s)
    (honboard : onboardOAuthUser host p name encrypted scopes authority s = .ok (identity, s')) {tenantId userId : Uuid}
    (hbefore : ¬ Administers s tenantId userId) (hafter : Administers s' tenantId userId) :
    ¬ HasUsers p s ∧
      IsAccount s' (identityScopeKey p.entraTenantId p.entraObjectId) p.entraObjectId tenantId userId := by
  obtain ⟨g, hg, hnew, htenant, huser, q, hq, hqid, hqname⟩ :=
    h.new_grant (writes_extends (onboardOAuthUser_writes honboard)) hbefore hafter
  obtain ⟨created, s₁, s₂, r, s₃, hat, huserAt, hrole, hrows, -⟩ := onboardOAuthUser_parts honboard
  generalize hadmin : (created || decide (countUsers identity.tenant.id s₁ = 0)) = administrator at *
  obtain ⟨hfound, hroleRows⟩ := getOrCreateRole_found hrole
  have hgrantRows := grantPermissions_rows r (onboardingRole administrator).2.2 s₃
  have hassignRows := assignRole_rows identity.tenant.id identity.user.id r.id
    (grantPermissions r (onboardingRole administrator).2.2 s₃)
  have e₁ := hat.rows
  have e₂ := huserAt.rows
  simp only [Store.rows, Rows.mk.injEq] at e₁ e₂ hroleRows hgrantRows hassignRows hrows
  rw [hrows.2.2.2.2.2.1] at hg
  have hgrants : (grantPermissions r (onboardingRole administrator).2.2 s₃).userRoles = s.userRoles := by grind
  have heq : g = ⟨identity.tenant.id, identity.user.id, r.id, "tenant", "*", none⟩ :=
    (mem_of_assignRole hg).resolve_left fun hold => hnew (hgrants ▸ hold)
  rw [heq] at htenant huser hqid
  obtain rfl := htenant
  obtain rfl := huser
  have hr : r ∈ s'.roles := by
    have hroles : s'.roles = s₃.roles := by grind
    rw [hroles]
    exact List.mem_of_find?_eq_some hfound
  have hrname := (mem_of_getOrCreateRole hrole).2.2
  have hadministrator : administrator = true := by
    rw [s'.roleIds.eq hq hr hqid, hrname] at hqname
    cases administrator with
    | true => rfl
    | false => exact absurd hqname (by decide)
  obtain ⟨ht, hscope, hu, hkey⟩ := onboardOAuthUser_account honboard
  exact ⟨(administrator_iff hat).mp (hadmin.trans hadministrator), ⟨_, ht, rfl, hscope⟩, _, hu, rfl, hkey⟩

theorem bootstrapIdentity_appointed {permissionIds : String → Uuid} {settings : BootstrapSettings}
    (h : Confined s) (hboot : bootstrapIdentity host permissionIds settings s = .ok s') {tenantId userId : Uuid}
    (hbefore : ¬ Administers s tenantId userId) (hafter : Administers s' tenantId userId) :
    ∃ entraTenantId objectId, settings.tenantId = some entraTenantId ∧ settings.adminObjectId = some objectId ∧
      IsAccount s' (identityScopeKey entraTenantId 0) objectId tenantId userId := by
  have hs := writes_extends (bootstrapIdentity_writes hboot)
  obtain ⟨g, hg, hnew, htenant, huser, -⟩ := h.new_grant hs hbefore hafter
  obtain ⟨s₁, h₁, hrest⟩ := bootstrapIdentity_parts hboot
  have e₁ := bootstrapPermissions_rows h₁
  rcases hrest with ⟨-, rfl⟩ | ⟨entraTenantId, t, s₂, r, s₃, hconfigured, h₂, h₃, hrest⟩
  · exact (h.nobody_new hs (congrArg Rows.userRoles e₁) hbefore hafter).elim
  · obtain ⟨-, ht, hscope, e₂⟩ := bootstrapTenant_writes h₂
    have e₃ := (getOrCreateRole_found h₃).2
    have e₄ := grantPermissions_rows r (onboardingRole true).2.2 s₃
    simp only [Store.rows, Rows.mk.injEq] at e₁ e₂ e₃ e₄
    have hgrants : (grantPermissions r (onboardingRole true).2.2 s₃).userRoles = s.userRoles := by grind
    rcases hrest with ⟨-, rfl⟩ | ⟨objectId, u, s₅, hadmin, h₅, rfl⟩
    · exact absurd (hgrants ▸ hg) hnew
    · have ht₄ : t ∈ (grantPermissions r (onboardingRole true).2.2 s₃).tenants := by
        rw [e₄.1, e₃.1]
        exact ht
      obtain ⟨-, hu, hkey, e₅⟩ := bootstrapAdmin_writes (List.mem_map_of_mem ht₄) h₅
      have hsame := assignRole_same t.id u.id r.id s₅
      have hold : s₅.userRoles = s.userRoles := (congrArg Rows.userRoles e₅).trans hgrants
      have heq : g = ⟨t.id, u.id, r.id, "tenant", "*", none⟩ :=
        (mem_of_assignRole hg).resolve_left fun hmem => hnew (hold ▸ hmem)
      rw [heq] at htenant huser
      obtain rfl := htenant
      obtain rfl := huser
      refine ⟨entraTenantId, objectId, hconfigured, hadmin, ⟨t, ?_, rfl, hscope⟩, u, ?_, rfl, hkey⟩
      · rw [hsame.tenants, show s₅.tenants = _ from congrArg Rows.tenants e₅]
        exact ht₄
      · rw [hsame.users]
        exact hu

theorem appointed_step {a : Action} (h : Confined s) (hstep : step a s = some s') : Appointed s a s' := by
  intro tenantId userId hbefore hafter
  cases a with
  | bootstrap host permissionIds settings =>
    simp only [step] at hstep
    cases hresult : bootstrapIdentity host permissionIds settings s with
    | error f => simp [hresult] at hstep
    | ok s'' =>
      rw [hresult] at hstep
      cases hstep
      exact bootstrapIdentity_appointed h hresult hbefore hafter
  | request w host r =>
    cases hstep
    rcases handle_cases w host r s with hsame | ⟨_, _, p, identity, -, -, hresult⟩ |
      ⟨c, p, encrypted, identity, rfl, hauthorize, hresult⟩ | ⟨c, owner, encrypted, authority, -, hresult⟩
    · rw [hsame] at hafter
      exact absurd hafter hbefore
    · obtain ⟨hwrites, hrows⟩ := resolveAndSync_writes hresult
      exact (h.nobody_new (writes_extends hwrites) (congrArg Rows.userRoles hrows) hbefore hafter).elim
    · have happointed := onboardOAuthUser_appointed h hresult hbefore hafter
      exact ⟨p, encrypted, authorize_eq_ok_iff.mp hauthorize, happointed⟩
    · have hs := writes_extends (upsertOAuthConnection_writes hresult)
      exact (h.nobody_new hs (congrArg Rows.userRoles (upsertOAuthConnection_rows hresult)) hbefore hafter).elim
  | setStatus id status =>
    cases hstep
    exact absurd hafter hbefore
  | setActive id isActive =>
    cases hstep
    exact absurd hafter hbefore

end Appointed

/-- **Nobody makes themselves an administrator.** In every run that takes requests one at a
time, whoever becomes one is the administrator a bootstrap names, or the account whose login
opened its workspace. -/
theorem appointed (actions : List Action) : EveryStep step Appointed actions .empty :=
  .of_invariant actions confined_empty (fun _ _ _ h hstep => confined_step h hstep)
    fun _ _ _ h hstep => appointed_step h hstep

end Sentinel.Identity
