import Sentinel.Identity.Writes

/-! The bootstrap of a service that starts again.

`bootstrap_identity` runs at every start, each time with ids and clocks of its own. What it
made once is never taken away, so whatever happened in between, running it again with the
same settings succeeds and leaves every table as it is (`restart_changes_nothing`). -/
namespace Sentinel.Identity
open Library Library.Fallible Transition

/-- The role of the tenant's administrators, with every permission it stands for. -/
structure Administrators (s : Store) (tenantId : Uuid) (r : Role) : Prop where
  mem : r ∈ s.roles
  tenantId : r.tenantId = tenantId
  name : r.name = (onboardingRole true).1
  carries : ∀ p ∈ s.permissions, p.name ∈ (onboardingRole true).2.2 → ⟨r.id, p.id⟩ ∈ s.rolePermissions

/-- The account has the role. -/
def Holds (s : Store) (tenantId objectId : Uuid) (r : Role) : Prop :=
  ∃ u ∈ s.users, u.key = (tenantId, objectId) ∧
    (⟨tenantId, u.id, r.id, "tenant", "*", none⟩ : UserRole).key ∈ s.userRoles.map UserRole.key

/-- The tables have all that a bootstrap with the settings makes. -/
structure Booted (settings : BootstrapSettings) (s : Store) : Prop where
  permissions : ∀ p ∈ permissionDescriptions, ∃ q ∈ s.permissions, q.name = p.1
  tenant : ∀ entraTenantId ∈ settings.tenantId, ∃ t ∈ s.tenants,
    t.identityScopeKey = identityScopeKey entraTenantId 0 ∧
    ∃ r, Administrators s t.id r ∧ ∀ objectId ∈ settings.adminObjectId, Holds s t.id objectId r

section Kept
variable {s s' : Store} {settings : BootstrapSettings}

theorem Holds.extend {tenantId objectId : Uuid} {r : Role} (h : Holds s tenantId objectId r)
    (hs : Extends s s') : Holds s' tenantId objectId r := by
  obtain ⟨u, hu, hkey, hgrant⟩ := h
  obtain ⟨u', hu', hid, hkey'⟩ := hs.users u hu
  refine ⟨u', hu', hkey'.trans hkey, ?_⟩
  rw [hid]
  exact List.map_subset _ hs.userRoles hgrant

/-- A permission that is added later has a name no bootstrap knows. -/
theorem Administrators.write {tenantId : Uuid} {r : Role} (h : Administrators s tenantId r)
    (hnames : ∀ p ∈ permissionDescriptions, ∃ q ∈ s.permissions, q.name = p.1) (hwrite : Write s s') :
    Administrators s' tenantId r := by
  have hs := write_extends hwrite
  refine ⟨hs.roles h.mem, h.tenantId, h.name, fun p hp hname => ?_⟩
  by_cases hold : p ∈ s.permissions
  · exact hs.rolePermissions (h.carries p hold hname)
  · obtain ⟨d, hd, hdname⟩ := List.mem_map.mp (show p.name ∈ permissionDescriptions.map Prod.fst from hname)
    obtain ⟨q, hq, hqname⟩ := hnames d hd
    have heq : q = p := s'.permissionNames.eq (hs.permissions hq) hp (hqname.trans hdname)
    exact absurd (heq ▸ hq) hold

theorem Booted.write (h : Booted settings s) (hwrite : Write s s') : Booted settings s' := by
  have hs := write_extends hwrite
  refine ⟨fun p hp => ?_, fun entraTenantId htenant => ?_⟩
  · obtain ⟨q, hq, hname⟩ := h.permissions p hp
    exact ⟨q, hs.permissions hq, hname⟩
  · obtain ⟨t, ht, hscope, r, hr, hadmin⟩ := h.tenant entraTenantId htenant
    obtain ⟨t', ht', hid, -, hscope'⟩ := hs.tenants t ht
    refine ⟨t', ht', hscope'.trans hscope, r, ?_, fun objectId hobject => ?_⟩
    · rw [hid]
      exact hr.write h.permissions hwrite
    · rw [hid]
      exact (hadmin objectId hobject).extend hs

theorem Booted.step (h : Booted settings s) {a : Action} (hstep : step a s = some s') : Booted settings s' :=
  writes_keep (fun _ _ h hwrite => h.write hwrite) h (step_writes hstep)

end Kept

/-! ### The first start -/

section First
variable {s s' : Store} {host : Host} {permissionIds : String → Uuid} {settings : BootstrapSettings}

theorem bootstrapPermissions_named {permissions : List (String × String)}
    (h : bootstrapPermissions permissionIds permissions s = .ok s') :
    s.permissions ⊆ s'.permissions ∧ ∀ p ∈ permissions, ∃ q ∈ s'.permissions, q.name = p.1 := by
  induction permissions generalizing s with
  | nil =>
    cases h
    exact ⟨List.Subset.refl _, fun p hp => absurd hp List.not_mem_nil⟩
  | cons p rest ih =>
    obtain ⟨name, description⟩ := p
    obtain ⟨s₁, h₁, h₂⟩ := bind_eq_ok.mp h
    obtain ⟨hsubset, hrest⟩ := ih h₂
    have hfirst : s.permissions ⊆ s₁.permissions ∧ ∃ q ∈ s₁.permissions, q.name = name := by
      unfold bootstrapPermission at h₁
      split at h₁
      case h_1 q hget =>
        cases h₁
        exact ⟨List.Subset.refl _, q, List.mem_of_find?_eq_some hget, by simpa using List.find?_some hget⟩
      case h_2 =>
        rw [show s₁.permissions = _ from congrArg Rows.permissions (insertPermission_rows h₁)]
        exact ⟨List.subset_append_left _ _, _, List.mem_append_right _ (List.mem_singleton_self _), rfl⟩
    refine ⟨List.Subset.trans hfirst.1 hsubset, fun p hp => ?_⟩
    cases List.mem_cons.mp hp with
    | inl heq =>
      obtain ⟨q, hq, hname⟩ := hfirst.2
      exact ⟨q, hsubset hq, hname.trans (congrArg Prod.fst heq).symm⟩
    | inr hp => exact hrest p hp

theorem bootstrapIdentity_booted (h : bootstrapIdentity host permissionIds settings s = .ok s') :
    Booted settings s' := by
  obtain ⟨s₁, h₁, hrest⟩ := bootstrapIdentity_parts h
  have hnamed := (bootstrapPermissions_named h₁).2
  rcases hrest with ⟨hnone, rfl⟩ | ⟨entraTenantId, t, s₂, r, s₃, hsome, h₂, h₃, hrest⟩
  · exact ⟨hnamed, fun entraTenantId htenant => by simp [hnone] at htenant⟩
  · obtain ⟨-, ht, hscope, e₂⟩ := bootstrapTenant_writes h₂
    have e₃ := (getOrCreateRole_found h₃).2
    obtain ⟨hr, htenant, hname⟩ := mem_of_getOrCreateRole h₃
    have e₄ := grantPermissions_rows r (onboardingRole true).2.2 s₃
    have hcarries := grantPermissions_granted r (onboardingRole true).2.2 s₃
    simp only [Store.rows, Rows.mk.injEq] at e₂ e₃ e₄
    have hpermissions : (grantPermissions r (onboardingRole true).2.2 s₃).permissions = s₁.permissions := by
      grind
    have ht₄ : t ∈ (grantPermissions r (onboardingRole true).2.2 s₃).tenants := by
      rw [e₄.1, e₃.1]
      exact ht
    have hadministrators : Administrators (grantPermissions r (onboardingRole true).2.2 s₃) t.id r := by
      refine ⟨?_, htenant, hname, fun p hp => hcarries p ?_⟩
      · rw [e₄.2.2.1]
        exact hr
      · rwa [← e₄.2.2.2.1]
    rcases hrest with ⟨hnone, rfl⟩ | ⟨objectId, u, s₅, hsome', h₅, rfl⟩
    · refine ⟨fun p hp => ?_, fun entra hentra => ⟨t, ht₄, ?_, r, hadministrators, ?_⟩⟩
      · rw [hpermissions]
        exact hnamed p hp
      · rw [hscope, Option.some.inj (hsome.symm.trans hentra)]
      · intro objectId hobject
        simp [hnone] at hobject
    · obtain ⟨-, hu, hkey, e₅⟩ := bootstrapAdmin_writes (List.mem_map_of_mem ht₄) h₅
      have e₆ := assignRole_rows t.id u.id r.id s₅
      simp only [Store.rows, Rows.mk.injEq] at e₅ e₆
      refine ⟨fun p hp => ?_, fun entra hentra => ⟨t, ?_, ?_, r, ⟨?_, htenant, hname, ?_⟩, ?_⟩⟩
      · rw [e₆.2.2.2.1, e₅.2.2.2.1, hpermissions]
        exact hnamed p hp
      · rw [e₆.1, e₅.1]
        exact ht₄
      · rw [hscope, Option.some.inj (hsome.symm.trans hentra)]
      · rw [e₆.2.2.1, e₅.2.2.1]
        exact hadministrators.mem
      · rw [e₆.2.2.2.1, e₅.2.2.2.1, e₆.2.2.2.2.1, e₅.2.2.2.2.1]
        exact hadministrators.carries
      · intro oid hoid
        rw [← Option.some.inj (hsome'.symm.trans hoid)]
        refine ⟨u, ?_, hkey, assignRole_assigned t.id u.id r.id s₅⟩
        rw [e₆.2.1]
        exact hu

end First

/-! ### The next start -/

section Next
variable {s : Store} {host : Host} {permissionIds : String → Uuid} {settings : BootstrapSettings}

theorem bootstrapPermissions_again (permissionIds : String → Uuid) {permissions : List (String × String)}
    (h : ∀ p ∈ permissions, ∃ q ∈ s.permissions, q.name = p.1) :
    bootstrapPermissions permissionIds permissions s = .ok s := by
  induction permissions with
  | nil => rfl
  | cons p rest ih =>
    obtain ⟨name, description⟩ := p
    obtain ⟨q, hq, hname⟩ := h (name, description) List.mem_cons_self
    have hfirst : bootstrapPermission permissionIds name description s = .ok s := by
      rw [bootstrapPermission, s.permissionNames.find? hq hname]
    rw [bootstrapPermissions, hfirst]
    exact ih fun p hp => h p (List.mem_cons_of_mem _ hp)

theorem Administrators.found {tenantId : Uuid} {r : Role} (h : Administrators s tenantId r) (host : Host)
    (description : String) :
    getOrCreateRole host tenantId (onboardingRole true).1 description s = .ok (r, s) := by
  have hfind : (s.roles.find? fun r => r.tenantId = tenantId ∧ r.name = (onboardingRole true).1) = some r := by
    cases hget : s.roles.find? fun r => r.tenantId = tenantId ∧ r.name = (onboardingRole true).1 with
    | none => exact absurd (List.find?_eq_none.mp hget r h.mem) (by simp [h.tenantId, h.name])
    | some q =>
      have hq : q.tenantId = tenantId ∧ q.name = (onboardingRole true).1 := by simpa using List.find?_some hget
      have hkey : q.key = r.key := by
        rw [Role.key, Role.key, hq.1, hq.2, h.tenantId, h.name]
      rw [s.roleKeys.eq (List.mem_of_find?_eq_some hget) h.mem hkey]
  rw [getOrCreateRole, hfind]

theorem Booted.again (h : Booted settings s) (host : Host) (permissionIds : String → Uuid) :
    bootstrapIdentity host permissionIds settings s = .ok s := by
  have hpermissions := bootstrapPermissions_again permissionIds h.permissions
  cases htenant : settings.tenantId with
  | none => simp [bootstrapIdentity, hpermissions, htenant, bind, Except.bind, pure, Except.pure]
  | some entraTenantId =>
    obtain ⟨t, ht, hscope, r, hr, hadmin⟩ := h.tenant entraTenantId htenant
    have hfound : bootstrapTenant host settings entraTenantId s = .ok (t, s) := by
      have hget : getTenantByScopeKey (identityScopeKey entraTenantId 0) s = some t :=
        s.scopeKeys.find? ht hscope
      rw [bootstrapTenant, hget]
    have hrole : getOrCreateRole host t.id "TenantAdministrator"
        "Full Sentinel administration within one tenant" s = .ok (r, s) := hr.found host _
    have hgrant : grantPermissions r (permissionDescriptions.map Prod.fst) s = s := grantPermissions_again hr.carries
    cases hobject : settings.adminObjectId with
    | none =>
      simp [bootstrapIdentity, hpermissions, htenant, hfound, hrole, hgrant, hobject, bind, Except.bind, pure,
        Except.pure]
    | some objectId =>
      obtain ⟨u, hu, hkey, hassigned⟩ := hadmin objectId hobject
      have huser : bootstrapAdmin host settings t.id objectId s = .ok (u, s) := by
        have hget : getUser t.id objectId s = some u := s.userKeys.find? hu hkey
        rw [bootstrapAdmin, hget]
      have hassign : assignRole t.id u.id r.id s = s := dif_pos hassigned
      simp [bootstrapIdentity, hpermissions, htenant, hfound, hrole, hgrant, hobject, huser, hassign, bind,
        Except.bind, pure, Except.pure]

end Next

/-- **A restart changes nothing**: whatever happens after a bootstrap, one with the same
settings succeeds and leaves the tables as they are. -/
theorem restart_changes_nothing {s s₁ : Store} {host : Host} {permissionIds : String → Uuid}
    {settings : BootstrapSettings} (h : bootstrapIdentity host permissionIds settings s = .ok s₁)
    (actions : List Action) : Always step (fun t => ∀ later ids, bootstrapIdentity later ids settings t = .ok t)
      actions s₁ :=
  (Always.of_invariant actions (bootstrapIdentity_booted h) fun _ _ _ hbooted hstep => hbooted.step hstep).mono
    fun _ hbooted => hbooted.again

/-- With a tenant and an administrator configured, a callback between the two starts. -/
theorem restart_changes_nothing_configured : ∃ s₁, bootstrapIdentity sampleHost samplePermissionIds
    (sampleSettings (some 5) (some 6)) .empty = .ok s₁ ∧
    Always step (fun t => ∀ later ids, bootstrapIdentity later ids (sampleSettings (some 5) (some 6)) t = .ok t)
      [.request sampleWorld laterHost (.callback sampleCallback)] s₁ := by
  obtain ⟨s₁, h⟩ : ∃ s₁, bootstrapIdentity sampleHost samplePermissionIds (sampleSettings (some 5) (some 6)) .empty =
      .ok s₁ := by
    have hok : (bootstrapIdentity sampleHost samplePermissionIds (sampleSettings (some 5) (some 6))
        .empty).toOption.isSome = true := by decide +kernel
    obtain ⟨s₁, hs₁⟩ := Option.isSome_iff_exists.mp hok
    exact ⟨s₁, toOption_eq_some.mp hs₁⟩
  exact ⟨s₁, h, restart_changes_nothing h _⟩

end Sentinel.Identity
