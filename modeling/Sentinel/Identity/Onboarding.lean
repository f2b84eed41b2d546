import Sentinel.Identity.Rows

/-! What a callback puts in place.

It leaves its user, a role for it and the grant of the role; no row is lost. So a commit adds
one administrator at most, the user of a callback that decided so
(`administrators_of_commits`). -/
namespace Sentinel.Identity.Transactions
open Library Library.Table Library.Transition Library.ReadCommitted

/-- The users of the tenant who hold TenantAdministrator in it. -/
def administrators (s : Store) (tenantId : Uuid) : List Uuid :=
  ((s.users.filter fun u => u.tenantId = tenantId).map User.id).filter fun u =>
    s.userRoles.any fun g => g.tenantId = tenantId ∧ g.userId = u ∧
      s.roles.any fun r => r.id = g.roleId ∧ r.tenantId = tenantId ∧ r.name = "TenantAdministrator"

/-- The user of the first login to the tenant. -/
def Ledger.firstLogin (l : Ledger) (tenantId : Uuid) : Option Uuid :=
  (l.logins.find? fun login => login.1 = tenantId).map Prod.snd

/-! ### What the tables and the transactions keep -/

/-- The tenant has a user with this id. -/
def Knows (s : Store) (tenantId userId : Uuid) : Prop := ∃ u ∈ s.users, u.id = userId ∧ u.tenantId = tenantId

/-- Roles are granted to users there are, and are themselves there. -/
def Referential (s : Store) : Prop :=
  ∀ g ∈ s.userRoles, Knows s g.tenantId g.userId ∧ g.roleId ∈ s.roles.map Role.id

/-- No row is lost. -/
structure Grows (s s' : Store) : Prop where
  users : ∀ tenantId userId, Knows s tenantId userId → Knows s' tenantId userId
  roles : ∀ r ∈ s.roles, r ∈ s'.roles
  userRoles : ∀ g ∈ s.userRoles, g ∈ s'.userRoles

def FitsUser (s : Store) (c : AtUser) : Prop :=
  c.user.row.tenantId = c.tenant.row.id ∧ (c.user.isFresh ∨ Knows s c.tenant.row.id c.user.row.id)

def FitsRole (s : Store) (c : AtRole) : Prop :=
  FitsUser s c.toAtUser ∧ c.role.row.tenantId = c.tenant.row.id ∧
    c.role.row.name = (onboardingRole c.administrator).1 ∧ (c.role.isFresh ∨ c.role.row ∈ s.roles)

def FitsUserRole (s : Store) (c : AtUserRole) : Prop :=
  FitsRole s c.toAtRole ∧ ∃ g : UserRole, g.tenantId = c.tenant.row.id ∧ g.userId = c.user.row.id ∧
    g.roleId = c.role.row.id ∧ (c.userRole = some g ∨ c.userRole = none ∧ g ∈ s.userRoles)

/-- What a callback has read is still there. -/
def Fits (s : Store) : Onboarding → Prop
  | .begun | .tenant _ | .counted _ => True
  | .user c => FitsUser s c
  | .role c => FitsRole s c
  | .permissions c => FitsRole s c.toAtRole
  | .assigned c => FitsUserRole s c
  | .connected c => FitsUserRole s c.toAtUserRole

theorem FitsUser.grow {s s' : Store} {c : AtUser} (h : FitsUser s c) (hgrows : Grows s s') : FitsUser s' c :=
  ⟨h.1, h.2.imp_right (hgrows.users _ _)⟩

theorem FitsRole.grow {s s' : Store} {c : AtRole} (h : FitsRole s c) (hgrows : Grows s s') : FitsRole s' c :=
  ⟨h.1.grow hgrows, h.2.1, h.2.2.1, h.2.2.2.imp_right (hgrows.roles _)⟩

theorem FitsUserRole.grow {s s' : Store} {c : AtUserRole} (h : FitsUserRole s c) (hgrows : Grows s s') :
    FitsUserRole s' c := by
  obtain ⟨hrole, g, htenant, huser, hroleId, hg⟩ := h
  exact ⟨hrole.grow hgrows, g, htenant, huser, hroleId, hg.imp_right fun hg => ⟨hg.1, hgrows.userRoles g hg.2⟩⟩

theorem Fits.grow {s s' : Store} {stage : Onboarding} (h : Fits s stage) (hgrows : Grows s s') :
    Fits s' stage := by
  cases stage with
  | begun | tenant | counted => trivial
  | user c => exact FitsUser.grow h hgrows
  | role c => exact FitsRole.grow h hgrows
  | permissions c => exact FitsRole.grow h hgrows
  | assigned c => exact FitsUserRole.grow h hgrows
  | connected c => exact FitsUserRole.grow h hgrows

theorem fits_readUser (login : Login) (s : Store) (tenantId : Uuid) :
    (readUser login tenantId s).row.tenantId = tenantId ∧
      ((readUser login tenantId s).isFresh ∨ Knows s tenantId (readUser login tenantId s).row.id) := by
  unfold readUser
  cases hfind : getUser tenantId login.principal.entraObjectId s with
  | none => exact ⟨rfl, .inl rfl⟩
  | some u =>
    have hkey : u.key = (tenantId, login.principal.entraObjectId) := by simpa using List.find?_some hfind
    have htenant : u.tenantId = tenantId := congrArg Prod.fst hkey
    exact ⟨htenant, .inr ⟨u, List.mem_of_find?_eq_some hfind, rfl, htenant⟩⟩

theorem fits_readRole (login : Login) (s : Store) (tenantId : Uuid) (administrator : Bool) :
    (readRole login tenantId administrator s).row.tenantId = tenantId ∧
      (readRole login tenantId administrator s).row.name = (onboardingRole administrator).1 ∧
      ((readRole login tenantId administrator s).isFresh ∨
        (readRole login tenantId administrator s).row ∈ s.roles) := by
  unfold readRole
  cases hfind : s.roles.find? fun r => r.tenantId = tenantId ∧ r.name = (onboardingRole administrator).1 with
  | none => exact ⟨rfl, rfl, .inl rfl⟩
  | some r =>
    have hrole : r.tenantId = tenantId ∧ r.name = (onboardingRole administrator).1 := by
      simpa using List.find?_some hfind
    exact ⟨hrole.1, hrole.2, .inr (List.mem_of_find?_eq_some hfind)⟩

theorem fits_missingUserRole (s : Store) (tenantId userId roleId : Uuid) :
    ∃ g : UserRole, g.tenantId = tenantId ∧ g.userId = userId ∧ g.roleId = roleId ∧
      (missingUserRole tenantId userId roleId s = some g ∨
        missingUserRole tenantId userId roleId s = none ∧ g ∈ s.userRoles) := by
  unfold missingUserRole
  split_ifs with hkey
  · obtain ⟨g, hg, heq⟩ := List.mem_map.mp hkey
    simp only [UserRole.key, Prod.mk.injEq] at heq
    exact ⟨g, heq.1, heq.2.1, heq.2.2.1, .inr ⟨rfl, hg⟩⟩
  · exact ⟨⟨tenantId, userId, roleId, "tenant", "*", none⟩, rfl, rfl, rfl, .inl rfl⟩

/-- What a query returns is there when it returns. -/
theorem fits_onboard {login : Login} {tokenAuthority encrypted : String} {s : Store} {stage stage' : Onboarding}
    (h : Fits s stage) (hstage : onboard login tokenAuthority encrypted s stage = some stage') :
    Fits s stage' := by
  cases stage with
  | begun | tenant =>
    cases hstage
    trivial
  | counted c =>
    cases hstage
    exact fits_readUser login s c.tenant.row.id
  | user c =>
    cases hstage
    exact ⟨h, fits_readRole login s c.tenant.row.id c.administrator⟩
  | role c =>
    cases hstage
    exact h
  | permissions c =>
    cases hstage
    exact ⟨h, fits_missingUserRole s c.tenant.row.id c.user.row.id c.role.row.id⟩
  | assigned c =>
    cases hstage
    exact h
  | connected c => cases hstage

/-! ### What a commit writes -/

theorem mem_write_of_mem {ρ : Type} {u : Upsert ρ} {f : ρ → ρ} {rows : List ρ} {r : ρ} (hr : r ∈ rows)
    (hf : f r = r) : r ∈ u.write f rows := by
  cases u with
  | found row => exact List.mem_map.mpr ⟨r, hr, hf⟩
  | fresh row => exact List.mem_append_left _ hr

theorem knows_write {login : Login} {u : Upsert User} {s s' : Store}
    (hrows : s'.users = u.write (synced login u.row) s.users) {tenantId userId : Uuid} :
    Knows s' tenantId userId ↔ Knows s tenantId userId ∨
      u.isFresh ∧ u.row.id = userId ∧ u.row.tenantId = tenantId := by
  unfold Knows
  rw [hrows]
  cases u with
  | found loaded =>
    have htenant : ∀ v, (synced login loaded v).tenantId = v.tenantId := fun v =>
      congrArg Prod.fst (synced_key login loaded v)
    simp [Upsert.write, Upsert.isFresh, Upsert.row, synced_id, htenant]
  | fresh row => simp [Upsert.write, Upsert.isFresh, Upsert.row, or_and_right, exists_or]

theorem mem_administrators {s : Store} {tenantId userId : Uuid} : userId ∈ administrators s tenantId ↔
    Knows s tenantId userId ∧ ∃ g ∈ s.userRoles, g.tenantId = tenantId ∧ g.userId = userId ∧
      ∃ r ∈ s.roles, r.id = g.roleId ∧ r.tenantId = tenantId ∧ r.name = "TenantAdministrator" := by
  simp only [administrators, Knows, List.mem_filter, List.mem_map, List.any_eq_true, decide_eq_true_eq,
    Bool.decide_and, Bool.and_eq_true]
  refine and_congr ?_ Iff.rfl
  refine ⟨?_, ?_⟩
  · rintro ⟨u, ⟨hu, htenant⟩, hid⟩
    exact ⟨u, hu, hid, htenant⟩
  · rintro ⟨u, hu, hid, htenant⟩
    exact ⟨u, ⟨hu, htenant⟩, hid⟩

theorem onboardingRole_eq_administrator {administrator : Bool} :
    (onboardingRole administrator).1 = "TenantAdministrator" ↔ administrator = true := by
  cases administrator <;> simp [onboardingRole]

theorem grows_writeOnboarding {login : Login} {tokenAuthority encrypted : String} {c : AtConnection} {s s' : Store}
    (h : writeOnboarding login tokenAuthority encrypted c s = .ok s') : Grows s s' := by
  have hrows := writeOnboarding_rows h
  have husers : s'.users = _ := congrArg Rows.users hrows
  have hroles : s'.roles = _ := congrArg Rows.roles hrows
  have hgrants : s'.userRoles = _ := congrArg Rows.userRoles hrows
  refine ⟨fun tenantId userId hknows => (knows_write husers).mpr (.inl hknows), ?_, ?_⟩
  · intro r hr
    rw [hroles]
    exact mem_write_of_mem hr rfl
  · intro g hg
    rw [hgrants]
    exact List.mem_append_left _ hg

section Commits
variable {p : Provider} {l l' : Ledger} {t : Txn}

theorem grows_of_commits (h : Commits p l t l') : Grows l.store l'.store := by
  cases h with
  | callback h => exact grows_writeOnboarding h
  | @bearer login u s h =>
    have hrows := writeUser_rows h
    have husers : s.users = _ := congrArg Rows.users hrows
    have hroles : s.roles = l.store.roles := congrArg Rows.roles hrows
    have hgrants : s.userRoles = l.store.userRoles := congrArg Rows.userRoles hrows
    refine ⟨fun tenantId userId hknows => (knows_write husers).mpr (.inl hknows), ?_, ?_⟩
    · exact fun r hr => hroles ▸ hr
    · exact fun g hg => hgrants ▸ hg
  | @token host tenantId userId rotates c issued s h =>
    have hrows := writeConnection_rows h
    have husers : s.users = l.store.users := congrArg Rows.users hrows
    have hroles : s.roles = l.store.roles := congrArg Rows.roles hrows
    have hgrants : s.userRoles = l.store.userRoles := congrArg Rows.userRoles hrows
    refine ⟨?_, fun r hr => hroles ▸ hr, fun g hg => hgrants ▸ hg⟩
    intro tenantId userId hknows
    unfold Knows
    rw [husers]
    exact hknows
  | unrotated => exact ⟨fun _ _ h => h, fun _ h => h, fun _ h => h⟩

/-- A role that a grant refers to is no new one. -/
theorem mem_roles_of_grant {s s' : Store} (hgrows : Grows s s') (href : Referential s) {g : UserRole}
    (hg : g ∈ s.userRoles) {r : Role} (hr : r ∈ s'.roles) (hid : r.id = g.roleId) : r ∈ s.roles := by
  obtain ⟨r₀, hr₀, heq⟩ := List.mem_map.mp (href g hg).2
  rwa [← s'.roleIds.eq (hgrows.roles r₀ hr₀) hr (heq.trans hid.symm)]

/-- The administrators who were there stay. -/
theorem administrators_grow {s s' : Store} (hgrows : Grows s s') {tenantId userId : Uuid}
    (h : userId ∈ administrators s tenantId) : userId ∈ administrators s' tenantId := by
  obtain ⟨hknows, g, hg, htenant, huser, r, hr, hrole⟩ := mem_administrators.mp h
  exact mem_administrators.mpr ⟨hgrows.users _ _ hknows, g, hgrows.userRoles g hg, htenant, huser, r,
    hgrows.roles r hr, hrole⟩

/-- Without a new grant there is no new administrator. -/
theorem administrators_same {s s' : Store} (hgrows : Grows s s') (href : Referential s)
    (hgrants : s'.userRoles = s.userRoles) (tenantId userId : Uuid) :
    userId ∈ administrators s' tenantId ↔ userId ∈ administrators s tenantId := by
  refine ⟨fun h => ?_, administrators_grow hgrows⟩
  obtain ⟨-, g, hg, htenant, huser, r, hr, hid, hrole⟩ := mem_administrators.mp h
  rw [hgrants] at hg
  refine mem_administrators.mpr ⟨?_, g, hg, htenant, huser, r, mem_roles_of_grant hgrows href hg hr hid, hid, hrole⟩
  rw [← htenant, ← huser]
  exact (href g hg).1

/-- What a callback that commits has put in place: its user, its role, and the grant. -/
theorem onboarded {login : Login} {tokenAuthority encrypted : String} {c : AtConnection} {s s' : Store}
    (h : writeOnboarding login tokenAuthority encrypted c s = .ok s') (hfits : FitsUserRole s c.toAtUserRole) :
    Knows s' c.tenant.row.id c.user.row.id ∧ c.role.row ∈ s'.roles ∧
      ∃ g : UserRole, g.tenantId = c.tenant.row.id ∧ g.userId = c.user.row.id ∧ g.roleId = c.role.row.id ∧
        g ∈ s'.userRoles ∧ ∀ g' ∈ s'.userRoles, g' = g ∨ g' ∈ s.userRoles := by
  have hrows := writeOnboarding_rows h
  have husers : s'.users = _ := congrArg Rows.users hrows
  have hroles : s'.roles = _ := congrArg Rows.roles hrows
  have hgrants : s'.userRoles = _ := congrArg Rows.userRoles hrows
  obtain ⟨⟨⟨hutenant, huser⟩, -, -, hrole⟩, g, hgt, hgu, hgr, hg⟩ := hfits
  refine ⟨?_, ?_, g, hgt, hgu, hgr, ?_⟩
  · rw [knows_write husers]
    exact huser.symm.imp_right fun hfresh => ⟨hfresh, rfl, hutenant⟩
  · rw [hroles]
    cases hupsert : c.role with
    | fresh row => exact List.mem_append_right _ (List.mem_singleton_self row)
    | found row =>
      rw [hupsert] at hrole
      exact mem_write_of_mem (u := .found row) (f := id) (hrole.resolve_left (by simp [Upsert.isFresh])) rfl
  · rw [hgrants]
    cases hg with
    | inl hsome => simp [hsome, or_comm]
    | inr hnone =>
      rw [hnone.1, Option.toList_none, List.append_nil]
      exact ⟨hnone.2, fun _ hg' => .inr hg'⟩

/-- **A callback adds at most its own user** to the administrators, if it so decided. -/
theorem administrators_onboarding {login : Login} {tokenAuthority encrypted : String} {c : AtConnection}
    {s s' : Store} (h : writeOnboarding login tokenAuthority encrypted c s = .ok s') (hgrows : Grows s s')
    (href : Referential s) (hfits : FitsUserRole s c.toAtUserRole) (tenantId userId : Uuid) :
    userId ∈ administrators s' tenantId ↔ userId ∈ administrators s tenantId ∨
      c.administrator ∧ tenantId = c.tenant.row.id ∧ userId = c.user.row.id := by
  obtain ⟨hknows, hrole, g, hgt, hgu, hgr, hg, hall⟩ := onboarded h hfits
  obtain ⟨-, hroleTenant, hroleName, -⟩ := hfits.1
  refine ⟨?_, ?_⟩
  · intro hadmin
    obtain ⟨-, g', hg', htenant, huser, r, hr, hid, hrt, hname⟩ := mem_administrators.mp hadmin
    cases hall g' hg' with
    | inl heq =>
      subst heq
      rw [s'.roleIds.eq hr hrole (hid.trans hgr), hroleName, onboardingRole_eq_administrator] at hname
      exact .inr ⟨hname, htenant.symm.trans hgt, huser.symm.trans hgu⟩
    | inr hold =>
      refine .inl (mem_administrators.mpr ⟨?_, g', hold, htenant, huser, r,
        mem_roles_of_grant hgrows href hold hr hid, hid, hrt, hname⟩)
      rw [← htenant, ← huser]
      exact (href g' hold).1
  · rintro (hold | ⟨hdecided, rfl, rfl⟩)
    · exact administrators_grow hgrows hold
    · exact mem_administrators.mpr ⟨hknows, g, hg, hgt, hgu, _, hrole, hgr.symm, hroleTenant,
        hroleName.trans (onboardingRole_eq_administrator.mpr hdecided)⟩

/-- What holds of the transactions on their way. -/
def Fitting (_ : Nat) (l : Ledger) : Txn → Prop
  | .callback _ _ _ stage => Fits l.store stage
  | _ => True

theorem referential_of_commits (h : Commits p l t l') {n : Nat} (href : Referential l.store)
    (hfits : Fitting n l t) : Referential l'.store := by
  have hgrows := grows_of_commits h
  have kept : ∀ g ∈ l.store.userRoles, Knows l'.store g.tenantId g.userId ∧
      g.roleId ∈ l'.store.roles.map Role.id := by
    intro g hg
    obtain ⟨hknows, hrole⟩ := href g hg
    obtain ⟨r, hr, hid⟩ := List.mem_map.mp hrole
    exact ⟨hgrows.users _ _ hknows, List.mem_map.mpr ⟨r, hgrows.roles r hr, hid⟩⟩
  cases h with
  | callback h =>
    obtain ⟨hknows, hrole, g, hgt, hgu, hgr, -, hall⟩ := onboarded h hfits
    intro g' hg'
    cases hall g' hg' with
    | inl heq =>
      rw [heq, hgt, hgu, hgr]
      exact ⟨hknows, List.mem_map_of_mem hrole⟩
    | inr hold => exact kept g' hold
  | @bearer login u s h =>
    have hgrants : s.userRoles = l.store.userRoles := congrArg Rows.userRoles (writeUser_rows h)
    exact fun g hg => kept g (hgrants ▸ hg)
  | @token host tenantId userId rotates c issued s h =>
    have hgrants : s.userRoles = l.store.userRoles := congrArg Rows.userRoles (writeConnection_rows h)
    exact fun g hg => kept g (hgrants ▸ hg)
  | unrotated => exact href

/-- Who is an administrator after a commit. -/
theorem administrators_of_commits (h : Commits p l t l') {n : Nat} (href : Referential l.store)
    (hfits : Fitting n l t) (tenantId userId : Uuid) :
    userId ∈ administrators l'.store tenantId ↔ userId ∈ administrators l.store tenantId ∨
      ∃ login tokenAuthority issued c, t = .callback login tokenAuthority issued (.connected c) ∧
        c.administrator ∧ tenantId = c.tenant.row.id ∧ userId = c.user.row.id := by
  have hgrows := grows_of_commits h
  cases h with
  | callback h =>
    rw [administrators_onboarding h hgrows href hfits]
    refine or_congr_right ⟨fun hnew => ⟨_, _, _, _, rfl, hnew⟩, ?_⟩
    rintro ⟨_, _, _, _, ⟨⟩, hnew⟩
    exact hnew
  | bearer h =>
    rw [administrators_same hgrows href (congrArg Rows.userRoles (writeUser_rows h))]
    simp
  | token h =>
    rw [administrators_same hgrows href (congrArg Rows.userRoles (writeConnection_rows h))]
    simp
  | unrotated => simp

end Commits

/-! ### Whole runs -/

/-- What the ledger keeps: before the first login to a tenant, its administrator is the one
configured. -/
structure Kept (configured : Uuid → Option Uuid) (l : Ledger) : Prop where
  referential : Referential l.store
  configured : ∀ tenantId, l.firstLogin tenantId = none →
    ∀ u, u ∈ administrators l.store tenantId ↔ configured tenantId = some u

section Run
variable {p : Provider} {conf : Uuid → Option Uuid}

theorem firstLogin_snoc (l : Ledger) (login : Uuid × Uuid) (tenantId : Uuid) :
    Option.map Prod.snd ((l.logins ++ [login]).find? fun login => login.1 = tenantId) =
      if login.1 = tenantId then some ((l.firstLogin tenantId).getD login.2) else l.firstLogin tenantId := by
  unfold Ledger.firstLogin
  rw [List.find?_append]
  cases hfind : l.logins.find? fun login => login.1 = tenantId with
  | none => by_cases htenant : login.1 = tenantId <;> simp [htenant]
  | some first => by_cases htenant : login.1 = tenantId <;> simp [htenant]

theorem kept_of_commits {l l' : Ledger} {t : Txn} (h : Commits p l t l') {n : Nat} (hkept : Kept conf l)
    (hfits : Fitting n l t) : Kept conf l' := by
  refine ⟨referential_of_commits h hkept.referential hfits, ?_⟩
  intro tenantId hnone u
  rw [administrators_of_commits h hkept.referential hfits]
  cases h with
  | callback h =>
    rw [Ledger.firstLogin, firstLogin_snoc] at hnone
    split_ifs at hnone with htenant
    rw [hkept.configured tenantId hnone]
    apply or_iff_left
    rintro ⟨_, _, _, _, ⟨⟩, -, rfl, -⟩
    exact htenant rfl
  | bearer | token | unrotated =>
    refine Iff.trans (or_iff_left ?_) (hkept.configured tenantId hnone u)
    rintro ⟨_, _, _, _, ⟨⟩, -⟩

theorem keeps : Keeps (protocol p) (Kept conf) Fitting where
  later := fun _ _ _ h => h
  begin := by
    intro n l r _
    cases r <;> trivial
  statement := by
    intro n _ l t t' _ hfits hstatement
    cases t with
    | callback login tokenAuthority issued stage =>
      obtain ⟨stage', hstage, rfl⟩ := Option.map_eq_some_iff.mp hstatement
      exact fits_onboard hfits hstage
    | bearer login stage =>
      obtain ⟨stage', _, rfl⟩ := Option.map_eq_some_iff.mp hstatement
      trivial
    | token host tenantId userId rotates stage =>
      obtain ⟨stage', _, rfl⟩ := Option.map_eq_some_iff.mp hstatement
      trivial
  commit := fun _ _ _ _ hkept hfits hcommit => kept_of_commits (commits_of_commit hcommit) hkept hfits
  others := by
    intro n l t l' t' _ _ hcommit hfits
    cases t' with
    | callback login tokenAuthority issued stage =>
      exact Fits.grow hfits (grows_of_commits (commits_of_commit hcommit))
    | bearer | token => trivial

end Run

end Sentinel.Identity.Transactions
