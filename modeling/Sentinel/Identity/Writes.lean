import Sentinel.Identity.Returning

/-! The statements the identity service changes its tables with.

`Write` lists them, each with what the function that runs it knows of the rows it names.
Every step of a deployment is a sequence of them (`step_writes`), so what each statement
keeps every step keeps (`writes_keep`). -/
namespace Sentinel.Identity
open Library Library.Fallible Transition

inductive Write (s : Store) : Store → Prop
  | tenant (t : Tenant) (oid : Uuid) (s' : Store) (h : s.insertTenant t = .ok s')
      (hkey : t.identityScopeKey = identityScopeKey t.entraTenantId oid) : Write s s'
  | user (u : User) (s' : Store) (h : s.insertUser u = .ok s') (htenant : u.tenantId ∈ s.tenants.map Tenant.id) :
      Write s s'
  | role (r : Role) (administrator : Bool) (s' : Store) (h : s.insertRole r = .ok s')
      (hname : r.name = (onboardingRole administrator).1) (htenant : r.tenantId ∈ s.tenants.map Tenant.id) :
      Write s s'
  | permission (p : Permission) (s' : Store) (h : s.insertPermission p = .ok s') : Write s s'
  | rolePermission (r : Role) (p : Permission) (administrator : Bool) (hr : r ∈ s.roles) (hp : p ∈ s.permissions)
      (hrole : r.name = (onboardingRole administrator).1)
      (hpermission : p.name ∈ (onboardingRole administrator).2.2) : Write s (s.addRolePermission ⟨r.id, p.id⟩)
  | userRole (tenantId : Uuid) (u : User) (r : Role) (hu : u ∈ s.users) (hr : r ∈ s.roles)
      (huser : u.tenantId = tenantId) (hrole : r.tenantId = tenantId) : Write s (assignRole tenantId u.id r.id s)
  | connection (c : OAuthConnection) (s' : Store) (h : s.insertConnection c = .ok s') : Write s s'
  | tenants (f : Tenant → Tenant) (hf : KeepsWorkspace f) :
      Write s (s.updateTenants f hf.id hf.identityScopeKey)
  | users (f : User → User) (hid : ∀ u, (f u).id = u.id) (hkey : ∀ u, (f u).key = u.key) :
      Write s (s.updateUsers f hid hkey)
  | connections (f : OAuthConnection → OAuthConnection) (hid : ∀ c, (f c).id = c.id)
      (hkey : ∀ c, (f c).key = c.key) : Write s (s.updateConnections f hid hkey)

/-- Some statements lead from the first tables to the second. -/
abbrev Writes : Store → Store → Prop := Relation.ReflTransGen Write

theorem Write.writes {s s' : Store} (h : Write s s') : Writes s s' := .single h

/-! ### No row is lost -/

/-- Rows stay, and those of tenants and users keep what others know them by. -/
structure Extends (s s' : Store) : Prop where
  tenants : ∀ t ∈ s.tenants, ∃ t' ∈ s'.tenants, t'.id = t.id ∧ t'.entraTenantId = t.entraTenantId ∧
    t'.identityScopeKey = t.identityScopeKey
  users : ∀ u ∈ s.users, ∃ u' ∈ s'.users, u'.id = u.id ∧ u'.key = u.key
  roles : s.roles ⊆ s'.roles
  permissions : s.permissions ⊆ s'.permissions
  rolePermissions : s.rolePermissions ⊆ s'.rolePermissions
  userRoles : s.userRoles ⊆ s'.userRoles

section Extends
variable {s s' : Store}

theorem Extends.refl (s : Store) : Extends s s where
  tenants := fun t ht => ⟨t, ht, rfl, rfl, rfl⟩
  users := fun u hu => ⟨u, hu, rfl, rfl⟩
  roles := List.Subset.refl _
  permissions := List.Subset.refl _
  rolePermissions := List.Subset.refl _
  userRoles := List.Subset.refl _

theorem Extends.trans {s'' : Store} (h : Extends s s') (h' : Extends s' s'') : Extends s s'' where
  tenants := by
    intro t ht
    obtain ⟨t', ht', hid, hentra, hscope⟩ := h.tenants t ht
    obtain ⟨t'', ht'', hid', hentra', hscope'⟩ := h'.tenants t' ht'
    exact ⟨t'', ht'', hid'.trans hid, hentra'.trans hentra, hscope'.trans hscope⟩
  users := by
    intro u hu
    obtain ⟨u', hu', hid, hkey⟩ := h.users u hu
    obtain ⟨u'', hu'', hid', hkey'⟩ := h'.users u' hu'
    exact ⟨u'', hu'', hid'.trans hid, hkey'.trans hkey⟩
  roles := List.Subset.trans h.roles h'.roles
  permissions := List.Subset.trans h.permissions h'.permissions
  rolePermissions := List.Subset.trans h.rolePermissions h'.rolePermissions
  userRoles := List.Subset.trans h.userRoles h'.userRoles

/-- Tables with more rows. -/
theorem Extends.of_subset (htenants : s.tenants ⊆ s'.tenants) (husers : s.users ⊆ s'.users)
    (hroles : s.roles ⊆ s'.roles) (hpermissions : s.permissions ⊆ s'.permissions)
    (hcarried : s.rolePermissions ⊆ s'.rolePermissions) (hgrants : s.userRoles ⊆ s'.userRoles) : Extends s s' where
  tenants := fun t ht => ⟨t, htenants ht, rfl, rfl, rfl⟩
  users := fun u hu => ⟨u, husers hu, rfl, rfl⟩
  roles := hroles
  permissions := hpermissions
  rolePermissions := hcarried
  userRoles := hgrants

theorem write_extends (h : Write s s') : Extends s s' := by
  cases h with
  | tenant t oid _ h hkey =>
    unfold Store.insertTenant at h
    split_ifs at h
    cases h
    apply Extends.of_subset <;> simp
  | user u _ h htenant =>
    unfold Store.insertUser at h
    split_ifs at h
    cases h
    apply Extends.of_subset <;> simp
  | role r administrator _ h hname htenant =>
    unfold Store.insertRole at h
    split_ifs at h
    cases h
    apply Extends.of_subset <;> simp
  | permission p _ h =>
    unfold Store.insertPermission at h
    split_ifs at h
    cases h
    apply Extends.of_subset <;> simp
  | rolePermission r p administrator hr hp hrole hpermission =>
    unfold Store.addRolePermission
    split_ifs
    · exact .refl s
    · apply Extends.of_subset <;> simp
  | userRole tenantId u r hu hr huser hrole =>
    unfold assignRole Store.addUserRole
    split_ifs
    · exact .refl s
    · apply Extends.of_subset <;> simp
  | connection c _ h =>
    unfold Store.insertConnection at h
    split_ifs at h
    cases h
    apply Extends.of_subset <;> simp
  | tenants f hf =>
    exact {Extends.refl s with
      tenants := fun t ht => ⟨f t, List.mem_map_of_mem ht, hf.id t, hf.entraTenantId t, hf.identityScopeKey t⟩}
  | users f hid hkey =>
    exact {Extends.refl s with users := fun u hu => ⟨f u, List.mem_map_of_mem hu, hid u, hkey u⟩}
  | connections f hid hkey => exact {Extends.refl s with}

theorem writes_extends (h : Writes s s') : Extends s s' := by
  induction h with
  | refl => exact .refl s
  | tail _ hwrite ih => exact ih.trans (write_extends hwrite)

end Extends

/-! ### The functions of the repository -/

section Functions
variable {s s' : Store} {host : Host}

theorem getOrCreateTenant_writes {entraTenantId oid : Uuid} {accountType : AccountType}
    {displayName : Option String} {t : Tenant} {created : Bool}
    (h : getOrCreateTenant host entraTenantId (identityScopeKey entraTenantId oid) accountType displayName s =
      .ok (t, created, s')) : Writes s s' := by
  unfold getOrCreateTenant at h
  cases hget : getTenantByScopeKey (identityScopeKey entraTenantId oid) s with
  | some t₀ =>
    simp only [hget] at h
    split_ifs at h
    · cases h
      exact .refl
    · cases h
      exact (Write.tenants _ (keepsWorkspace_renameTenant t₀.id _)).writes
  | none =>
    simp only [hget] at h
    obtain ⟨_, hinsert, hpair⟩ := map_eq_ok.mp h
    cases hpair
    exact (Write.tenant _ oid _ hinsert rfl).writes

theorem mem_of_getUser {tenantId entraObjectId : Uuid} {u : User} (h : getUser tenantId entraObjectId s = some u) :
    u ∈ s.users ∧ u.tenantId = tenantId ∧ u.entraObjectId = entraObjectId := by
  unfold getUser at h
  have hkey : u.key = (tenantId, entraObjectId) := by simpa using List.find?_some h
  exact ⟨List.mem_of_find?_eq_some h, Prod.mk.inj hkey⟩

theorem synchronizeUser_writes {tenantId entraObjectId : Uuid} {displayName : String}
    {principalName : Option String} {u : User} (htenant : tenantId ∈ s.tenants.map Tenant.id)
    (h : synchronizeUser host tenantId entraObjectId displayName principalName s = .ok (u, s')) : Writes s s' := by
  unfold synchronizeUser at h
  cases hget : getUser tenantId entraObjectId s with
  | some u₀ =>
    simp only [hget] at h
    split_ifs at h
    cases h
    exact (Write.users _ (signedIn_id _ _ _ _) (signedIn_key _ _ _ _)).writes
  | none =>
    simp only [hget] at h
    obtain ⟨_, hinsert, hpair⟩ := map_eq_ok.mp h
    cases hpair
    exact (Write.user _ _ hinsert htenant).writes

theorem getOrCreateRole_writes {tenantId : Uuid} (administrator : Bool) {description : String} {r : Role}
    (htenant : tenantId ∈ s.tenants.map Tenant.id)
    (h : getOrCreateRole host tenantId (onboardingRole administrator).1 description s = .ok (r, s')) :
    Writes s s' := by
  unfold getOrCreateRole at h
  cases hget : s.roles.find? fun r => r.tenantId = tenantId ∧ r.name = (onboardingRole administrator).1 with
  | some r₀ =>
    simp only [hget] at h
    cases h
    exact .refl
  | none =>
    simp only [hget] at h
    obtain ⟨_, hinsert, hpair⟩ := map_eq_ok.mp h
    cases hpair
    exact (Write.role _ administrator _ hinsert rfl htenant).writes

/-- The role a function returns is there, in its tenant, under its name. -/
theorem mem_of_getOrCreateRole {tenantId : Uuid} {name description : String} {r : Role}
    (h : getOrCreateRole host tenantId name description s = .ok (r, s')) :
    r ∈ s'.roles ∧ r.tenantId = tenantId ∧ r.name = name := by
  have hfound := (getOrCreateRole_found h).1
  have hr := List.find?_some hfound
  exact ⟨List.mem_of_find?_eq_some hfound, of_decide_eq_true hr⟩

theorem grantPermissions_writes {r : Role} (administrator : Bool) (hr : r ∈ s.roles)
    (hname : r.name = (onboardingRole administrator).1) :
    Writes s (grantPermissions r (onboardingRole administrator).2.2 s) := by
  unfold grantPermissions
  -- The loop reads the permissions once; the grants it adds leave them and the roles alone.
  suffices hloop : ∀ (permissions : List Permission) (s₁ : Store), r ∈ s₁.roles →
      (∀ p ∈ permissions, p ∈ s₁.permissions ∧ p.name ∈ (onboardingRole administrator).2.2) →
      Writes s₁ (permissions.foldl (fun s p => s.addRolePermission ⟨r.id, p.id⟩) s₁) by
    refine hloop _ s hr fun p hp => ?_
    obtain ⟨hmem, hpermission⟩ := List.mem_filter.mp hp
    exact ⟨hmem, of_decide_eq_true hpermission⟩
  intro permissions
  induction permissions with
  | nil => exact fun s₁ _ _ => .refl
  | cons p rest ih =>
    intro s₁ hr₁ hall
    obtain ⟨hp, hpermission⟩ := hall p List.mem_cons_self
    have hsame : (s₁.addRolePermission ⟨r.id, p.id⟩).roles = s₁.roles ∧
        (s₁.addRolePermission ⟨r.id, p.id⟩).permissions = s₁.permissions := by
      unfold Store.addRolePermission
      split_ifs <;> exact ⟨rfl, rfl⟩
    refine .head (.rolePermission r p administrator hr₁ hp hname hpermission) (ih _ ?_ fun q hq => ?_)
    · rw [hsame.1]
      exact hr₁
    · rw [hsame.2]
      exact hall q (List.mem_cons_of_mem p hq)

theorem upsertOAuthConnection_writes {tenantId userId : Uuid} {encrypted : String} {scopes : List String}
    {authority : String} (h : upsertOAuthConnection host tenantId userId encrypted scopes authority s = .ok s') :
    Writes s s' := by
  unfold upsertOAuthConnection at h
  cases hget : getOAuthConnection tenantId userId s with
  | some c =>
    simp only [hget] at h
    split_ifs at h
    cases h
    exact (Write.connections _ (refreshed_id _ _ _ _ _) (refreshed_key _ _ _ _ _)).writes
  | none =>
    simp only [hget] at h
    exact (Write.connection _ _ h).writes

/-- The role of a workspace, with its permissions, given to one of its users. -/
theorem giveRole_writes {tenantId : Uuid} {u : User} {r : Role} {administrator : Bool} (hu : u ∈ s.users)
    (huser : u.tenantId = tenantId) (hr : r ∈ s.roles) (hrole : r.tenantId = tenantId)
    (hname : r.name = (onboardingRole administrator).1) :
    Writes s (assignRole tenantId u.id r.id (grantPermissions r (onboardingRole administrator).2.2 s)) := by
  have hsame := grantPermissions_same r (onboardingRole administrator).2.2 s
  refine (grantPermissions_writes administrator hr hname).tail (.userRole tenantId u r ?_ ?_ huser hrole)
  · rw [hsame.users]
    exact hu
  · rw [hsame.roles]
    exact hr

theorem onboardOAuthUser_writes {principal : TokenPrincipal} {name : Option String} {encrypted authority : String}
    {scopes : List String} {identity : ResolvedIdentity}
    (h : onboardOAuthUser host principal name encrypted scopes authority s = .ok (identity, s')) : Writes s s' := by
  obtain ⟨⟨t, created, s₁⟩, h₁, h⟩ := bind_eq_ok.mp h
  obtain ⟨⟨u, s₂⟩, h₂, h⟩ := bind_eq_ok.mp h
  obtain ⟨⟨r, s₃⟩, h₃, h⟩ := bind_eq_ok.mp h
  obtain ⟨s₄, h₄, h⟩ := bind_eq_ok.mp h
  cases h
  replace h₁ := of_statement h₁
  replace h₂ := of_statement h₂
  replace h₃ := of_statement h₃
  dsimp only at h₂ h₃ h₄
  have htenant₁ : t.id ∈ s₁.tenants.map Tenant.id :=
    List.mem_map_of_mem (List.mem_of_find?_eq_some (getOrCreateTenant_at h₁).found)
  have huser := synchronizeUser_at h₂
  obtain ⟨hu, hkey, -⟩ := mem_of_getUser huser.found
  have htenant₂ : t.id ∈ s₂.tenants.map Tenant.id := by
    rw [show s₂.tenants = s₁.tenants from congrArg Rows.tenants huser.rows]
    exact htenant₁
  have hrows := (getOrCreateRole_found h₃).2
  obtain ⟨hr, hrole, hname⟩ := mem_of_getOrCreateRole h₃
  have hu₃ : u ∈ s₃.users := by
    rw [show s₃.users = s₂.users from congrArg Rows.users hrows]
    exact hu
  calc Writes s s₁ := getOrCreateTenant_writes h₁
    Writes _ s₂ := synchronizeUser_writes htenant₁ h₂
    Writes _ s₃ := getOrCreateRole_writes _ htenant₂ h₃
    Writes _ _ := giveRole_writes hu₃ hkey hr hrole hname
    Writes _ s' := upsertOAuthConnection_writes (of_statement h₄)

end Functions

/-! ### Bootstrap -/

section Bootstrap
variable {s s' : Store} {host : Host} {permissionIds : String → Uuid} {settings : BootstrapSettings}

theorem bootstrapPermissions_writes {permissions : List (String × String)}
    (h : bootstrapPermissions permissionIds permissions s = .ok s') : Writes s s' := by
  induction permissions generalizing s with
  | nil =>
    cases h
    exact .refl
  | cons p rest ih =>
    obtain ⟨name, description⟩ := p
    obtain ⟨s₁, h₁, h₂⟩ := bind_eq_ok.mp h
    unfold bootstrapPermission at h₁
    split at h₁
    · cases h₁
      exact ih h₂
    · exact .head (.permission _ _ h₁) (ih h₂)

theorem bootstrapTenant_writes {entraTenantId : Uuid} {t : Tenant}
    (h : bootstrapTenant host settings entraTenantId s = .ok (t, s')) :
    Writes s s' ∧ t ∈ s'.tenants ∧ t.identityScopeKey = identityScopeKey entraTenantId 0 ∧
      s'.rows = {s.rows with tenants := s'.tenants} := by
  unfold bootstrapTenant at h
  cases hget : getTenantByScopeKey (identityScopeKey entraTenantId 0) s with
  | some t₀ =>
    simp only [hget] at h
    cases h
    unfold getTenantByScopeKey at hget
    exact ⟨.refl, List.mem_of_find?_eq_some hget, by simpa using List.find?_some hget, rfl⟩
  | none =>
    simp only [hget] at h
    obtain ⟨_, hinsert, hpair⟩ := map_eq_ok.mp h
    cases hpair
    have hrows := insertTenant_rows hinsert
    have htenants := congrArg Rows.tenants hrows
    refine ⟨(Write.tenant _ 0 _ hinsert rfl).writes, ?_, rfl, ?_⟩
    · rw [show s'.tenants = _ from htenants]
      exact List.mem_append_right _ (List.mem_singleton_self _)
    · rw [hrows, show s'.tenants = _ from htenants]

theorem bootstrapAdmin_writes {tenantId objectId : Uuid} {u : User} (htenant : tenantId ∈ s.tenants.map Tenant.id)
    (h : bootstrapAdmin host settings tenantId objectId s = .ok (u, s')) :
    Writes s s' ∧ u ∈ s'.users ∧ u.key = (tenantId, objectId) ∧ s'.rows = {s.rows with users := s'.users} := by
  unfold bootstrapAdmin at h
  cases hget : getUser tenantId objectId s with
  | some u₀ =>
    simp only [hget] at h
    cases h
    obtain ⟨hu, hkeys⟩ := mem_of_getUser hget
    exact ⟨.refl, hu, Prod.ext hkeys.1 hkeys.2, rfl⟩
  | none =>
    simp only [hget] at h
    obtain ⟨_, hinsert, hpair⟩ := map_eq_ok.mp h
    cases hpair
    have hrows := insertUser_rows hinsert
    have husers := congrArg Rows.users hrows
    refine ⟨(Write.user _ _ hinsert htenant).writes, ?_, rfl, ?_⟩
    · rw [show s'.users = _ from husers]
      exact List.mem_append_right _ (List.mem_singleton_self _)
    · rw [hrows, show s'.users = _ from husers]

/-- What a bootstrap does besides the permissions: nothing, or a tenant with the role of its
administrators, and, if one is configured, the administrator. -/
theorem bootstrapIdentity_parts (h : bootstrapIdentity host permissionIds settings s = .ok s') :
    ∃ s₁, bootstrapPermissions permissionIds permissionDescriptions s = .ok s₁ ∧
      ((settings.tenantId = none ∧ s' = s₁) ∨
      ∃ entraTenantId t s₂ r s₃, settings.tenantId = some entraTenantId ∧
        bootstrapTenant host settings entraTenantId s₁ = .ok (t, s₂) ∧
        getOrCreateRole host t.id (onboardingRole true).1 (onboardingRole true).2.1 s₂ = .ok (r, s₃) ∧
        ((settings.adminObjectId = none ∧ s' = grantPermissions r (onboardingRole true).2.2 s₃) ∨
        ∃ objectId u s₅, settings.adminObjectId = some objectId ∧
          bootstrapAdmin host settings t.id objectId (grantPermissions r (onboardingRole true).2.2 s₃) =
            .ok (u, s₅) ∧
          s' = assignRole t.id u.id r.id s₅)) := by
  unfold bootstrapIdentity at h
  obtain ⟨s₁, h₁, h⟩ := bind_eq_ok.mp h
  refine ⟨s₁, h₁, ?_⟩
  cases htenant : settings.tenantId with
  | none =>
    rw [htenant] at h
    cases h
    exact .inl ⟨rfl, rfl⟩
  | some entraTenantId =>
    rw [htenant] at h
    obtain ⟨⟨t, s₂⟩, h₂, h⟩ := bind_eq_ok.mp h
    obtain ⟨⟨r, s₃⟩, h₃, h⟩ := bind_eq_ok.mp h
    refine .inr ⟨entraTenantId, t, s₂, r, s₃, rfl, h₂, h₃, ?_⟩
    cases hadmin : settings.adminObjectId with
    | none =>
      rw [hadmin] at h
      cases h
      exact .inl ⟨rfl, rfl⟩
    | some objectId =>
      rw [hadmin] at h
      obtain ⟨⟨u, s₅⟩, h₅, h⟩ := bind_eq_ok.mp h
      cases h
      exact .inr ⟨objectId, u, s₅, rfl, h₅, rfl⟩

theorem bootstrapIdentity_writes (h : bootstrapIdentity host permissionIds settings s = .ok s') : Writes s s' := by
  obtain ⟨s₁, h₁, hrest⟩ := bootstrapIdentity_parts h
  have hw₁ := bootstrapPermissions_writes h₁
  rcases hrest with ⟨-, rfl⟩ | ⟨entraTenantId, t, s₂, r, s₃, -, h₂, h₃, hrest⟩
  · exact hw₁
  · obtain ⟨hw₂, ht, -, -⟩ := bootstrapTenant_writes h₂
    have hw₃ := getOrCreateRole_writes true (List.mem_map_of_mem ht) h₃
    have hrows := (getOrCreateRole_found h₃).2
    obtain ⟨hr, hrole, hname⟩ := mem_of_getOrCreateRole h₃
    have hsame := grantPermissions_same r (onboardingRole true).2.2 s₃
    have hgrants : Writes s (grantPermissions r (onboardingRole true).2.2 s₃) :=
      ((hw₁.trans hw₂).trans hw₃).trans (grantPermissions_writes true hr hname)
    rcases hrest with ⟨-, rfl⟩ | ⟨objectId, u, s₅, -, h₅, rfl⟩
    · exact hgrants
    · have htenants : t.id ∈ (grantPermissions r (onboardingRole true).2.2 s₃).tenants.map Tenant.id := by
        rw [hsame.tenants, show s₃.tenants = s₂.tenants from congrArg Rows.tenants hrows]
        exact List.mem_map_of_mem ht
      obtain ⟨hw₅, hu, hkey, husers⟩ := bootstrapAdmin_writes htenants h₅
      refine (hgrants.trans hw₅).tail (.userRole t.id u r hu ?_ (congrArg Prod.fst hkey) hrole)
      rw [show s₅.roles = (grantPermissions r (onboardingRole true).2.2 s₃).roles from
        congrArg Rows.roles husers, hsame.roles]
      exact hr

end Bootstrap

/-! ### Every step -/

section Steps
variable {s s' : Store}

/-- What a request leaves: the tables it found, or what the one function it calls that
writes left. -/
theorem handle_cases (w : World) (host : Host) (r : Request) (s : Store) :
    (handle w host r s).2 = s ∨
    (∃ sessionCookie token p identity, r = .profile sessionCookie (some token) ∧ w.validate token none = .ok p ∧
      resolveAndSync host p s = .ok (identity, (handle w host r s).2)) ∨
    (∃ c p encrypted identity, r = .callback c ∧ authorize w c = .ok (p, encrypted) ∧
      onboardOAuthUser host p none encrypted oauthScopes (refreshAuthority p.entraTenantId c.tenantCookie) s =
        .ok (identity, (handle w host r s).2)) ∨
    ∃ c userId encrypted authority, r = .token c ∧
      upsertOAuthConnection host c.tenantId userId encrypted oauthScopes authority s =
        .ok (handle w host r s).2 := by
  cases r with
  | profile sessionCookie credentials =>
    unfold handle
    dsimp only
    cases hresult : getIdentity w host sessionCookie credentials s with
    | error rejection => exact .inl rfl
    | ok result =>
      unfold getIdentity at hresult
      split at hresult
      · obtain ⟨claims, _, hresult⟩ := bind_eq_ok.mp hresult
        obtain ⟨identity, _, hresult⟩ := bind_eq_ok.mp hresult
        cases hresult
        exact .inl rfl
      · obtain ⟨p, hvalidate, hresult⟩ := bind_eq_ok.mp hresult
        exact .inr (.inl ⟨_, _, p, result.1, rfl, hvalidate, hresult⟩)
      · cases hresult
  | callback c =>
    cases hresult : callbackTransaction w host c s with
    | error rejection =>
      refine .inl ?_
      show (callback w host c s).2 = s
      simp only [callback, hresult]
    | ok result =>
      obtain ⟨identity, s'⟩ := result
      obtain ⟨⟨p, encrypted⟩, hauthorize, hrun⟩ := bind_eq_ok.mp hresult
      have hstore : (handle w host (.callback c) s).2 = s' := by
        show (callback w host c s).2 = s'
        simp only [callback, hresult]
        cases w.encodeSession (sessionClaims identity) <;> rfl
      rw [hstore]
      exact .inr (.inr (.inl ⟨c, p, encrypted, identity, rfl, hauthorize, hrun⟩))
  | token c =>
    unfold handle
    dsimp only
    cases hresult : delegatedAzureToken w host c s with
    | error rejection => exact .inl rfl
    | ok result =>
      unfold delegatedAzureToken at hresult
      obtain ⟨_, _, hresult⟩ := bind_eq_ok.mp hresult
      obtain ⟨connection, _, hresult⟩ := bind_eq_ok.mp hresult
      obtain ⟨refreshToken, _, hresult⟩ := bind_eq_ok.mp hresult
      obtain ⟨tokens, _, hresult⟩ := bind_eq_ok.mp hresult
      split at hresult
      case h_1 => cases hresult
      case h_2 =>
        obtain ⟨s', hrotate, hresult⟩ := bind_eq_ok.mp hresult
        split at hresult
        case h_1 => cases hresult
        case h_2 =>
          cases hresult
          unfold rotate at hrotate
          split at hrotate
          case h_1 =>
            cases hrotate
            exact .inl rfl
          case h_2 =>
            obtain ⟨encrypted, _, hrotate⟩ := bind_eq_ok.mp hrotate
            exact .inr (.inr (.inr ⟨c, _, encrypted, _, rfl, of_statement hrotate⟩))

/-- A bearer token writes at most its user. -/
theorem resolveAndSync_writes {host : Host} {p : TokenPrincipal} {identity : ResolvedIdentity}
    (h : resolveAndSync host p s = .ok (identity, s')) :
    Writes s s' ∧ s'.rows = {s.rows with users := s'.users} := by
  unfold resolveAndSync at h
  split at h
  case h_1 => cases h
  case h_2 t hget =>
    split_ifs at h
    obtain ⟨⟨u, s₁⟩, hsync, h⟩ := bind_eq_ok.mp h
    have hwrites := synchronizeUser_writes (List.mem_map_of_mem (List.mem_of_find?_eq_some hget))
      (of_statement hsync)
    have hrows := (synchronizeUser_at (of_statement hsync)).rows
    dsimp only at h
    split_ifs at h
    cases h
    exact ⟨hwrites, hrows⟩

theorem handle_writes (w : World) (host : Host) (r : Request) (s : Store) : Writes s (handle w host r s).2 := by
  rcases handle_cases w host r s with h | ⟨_, _, p, identity, -, -, h⟩ | ⟨c, p, encrypted, identity, -, -, h⟩ |
    ⟨c, userId, encrypted, authority, -, h⟩
  · rw [h]
  · exact (resolveAndSync_writes h).1
  · exact onboardOAuthUser_writes h
  · exact upsertOAuthConnection_writes h

theorem keepsWorkspace_setStatus (tenantId : Uuid) (status : TenantStatus) :
    KeepsWorkspace (setStatus tenantId status) := by
  constructor <;> intro t <;> unfold setStatus <;> split_ifs <;> rfl

theorem step_writes {a : Action} (h : step a s = some s') : Writes s s' := by
  cases a with
  | bootstrap host permissionIds settings =>
    simp only [step] at h
    cases hresult : bootstrapIdentity host permissionIds settings s with
    | error f => simp [hresult] at h
    | ok s'' =>
      rw [hresult] at h
      cases h
      exact bootstrapIdentity_writes hresult
  | request w host r =>
    cases h
    exact handle_writes w host r s
  | setStatus tenantId status =>
    cases h
    exact (Write.tenants _ (keepsWorkspace_setStatus tenantId status)).writes
  | setActive userId isActive =>
    cases h
    exact (Write.users _ _ _).writes

/-- What every statement keeps a sequence of them keeps. -/
theorem writes_keep {I : Store → Prop} (preserved : ∀ s s', I s → Write s s' → I s') (hs : I s)
    (h : Writes s s') : I s' := by
  induction h with
  | refl => exact hs
  | tail _ hwrite ih => exact preserved _ _ ih hwrite

end Steps

/-! ### The keys of workspaces -/

/-- Each workspace is named after its Entra tenant. -/
def Keyed (s : Store) : Prop := ∀ t ∈ s.tenants, ∃ oid, t.identityScopeKey = identityScopeKey t.entraTenantId oid

section Keyed
variable {s s' : Store}

theorem keyed_empty : Keyed .empty := by simp [Keyed, Store.empty]

theorem Keyed.of_same (h : Keyed s) (htenants : s'.tenants = s.tenants) : Keyed s' := by
  unfold Keyed
  rw [htenants]
  exact h

theorem keyed_write (h : Keyed s) (hwrite : Write s s') : Keyed s' := by
  cases hwrite with
  | tenant t oid _ hinsert hkey =>
    have htenants : s'.tenants = s.tenants ++ [t] := congrArg Rows.tenants (insertTenant_rows hinsert)
    intro t' ht'
    rw [htenants] at ht'
    cases List.mem_append.mp ht' with
    | inl ht' => exact h t' ht'
    | inr ht' =>
      obtain rfl := List.mem_singleton.mp ht'
      exact ⟨oid, hkey⟩
  | user u _ hinsert htenant =>
    have hrows := insertUser_rows hinsert
    exact h.of_same (congrArg Rows.tenants hrows)
  | role r administrator _ hinsert hname htenant =>
    have hrows := insertRole_rows hinsert
    exact h.of_same (congrArg Rows.tenants hrows)
  | permission p _ hinsert =>
    have hrows := insertPermission_rows hinsert
    exact h.of_same (congrArg Rows.tenants hrows)
  | rolePermission r p administrator hr hp hrole hpermission =>
    unfold Store.addRolePermission
    split_ifs <;> exact h
  | userRole tenantId u r hu hr huser hrole =>
    unfold assignRole Store.addUserRole
    split_ifs <;> exact h
  | connection c _ hinsert =>
    have hrows := insertConnection_rows hinsert
    exact h.of_same (congrArg Rows.tenants hrows)
  | tenants f hf =>
    intro t' ht'
    obtain ⟨t, ht, rfl⟩ := List.mem_map.mp ht'
    obtain ⟨oid, hkey⟩ := h t ht
    exact ⟨oid, by rw [hf.identityScopeKey, hf.entraTenantId, hkey]⟩
  | users f hid hkey => exact h
  | connections f hid hkey => exact h

end Keyed
end Sentinel.Identity
