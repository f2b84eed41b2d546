import Sentinel.Identity.Bootstrap
import Sentinel.Library.Fallible

/-! Which workspace each user lives in.

A tenant row is the workspace of one Entra tenant, or of one personal account. Sign-ins put
every user in the workspace their own scope key names; a bootstrap does so too, except for
the tenant of personal accounts (`well_placed`). -/
namespace Sentinel.Identity
open Library Library.Fallible Transition

/-- Two accounts have one scope key when they share an Entra tenant, and the account too if
it is the one of personal accounts. -/
theorem identityScopeKey_eq_iff {a b a' b' : Uuid} : identityScopeKey a b = identityScopeKey a' b' ↔
    a = a' ∧ (a = microsoftConsumerTenantId → b = b') := by
  by_cases ha : a = microsoftConsumerTenantId
  · by_cases ha' : a' = microsoftConsumerTenantId
    · subst ha ha'
      simp only [identityScopeKey, isPersonalAccount, decide_true, if_true, true_and, forall_const]
      refine ⟨?_, ?_⟩
      · intro h
        have hlists := congrArg String.toList h
        simp only [String.toList_append, List.append_cancel_left_eq] at hlists
        exact Uuid.str_inj (String.toList_injective hlists)
      · intro h
        rw [h]
    · refine iff_of_false (fun h => ?_) fun h => ha' (h.1 ▸ ha)
      have hlists := congrArg String.toList h
      simp [identityScopeKey, isPersonalAccount, ha, ha'] at hlists
  · by_cases ha' : a' = microsoftConsumerTenantId
    · refine iff_of_false (fun h => ?_) fun h => ha (h.1.trans ha')
      have hlists := congrArg String.toList h
      simp [identityScopeKey, isPersonalAccount, ha, ha'] at hlists
    · simp only [identityScopeKey, isPersonalAccount, ha, ha', decide_false, Bool.false_eq_true, if_false,
        false_implies, and_true]
      refine ⟨?_, ?_⟩
      · intro h
        have hlists := congrArg String.toList h
        simp only [String.toList_append, List.append_cancel_left_eq] at hlists
        exact Uuid.str_inj (String.toList_injective hlists)
      · intro h
        rw [h]

/-- Every user is in the workspace their own scope key names. -/
structure WellPlaced (s : Store) : Prop where
  scopeKey : ∀ u ∈ s.users, ∀ t ∈ s.tenants, u.tenantId = t.id →
    t.identityScopeKey = identityScopeKey t.entraTenantId u.entraObjectId
  accountType : ∀ t ∈ s.tenants, t.accountType = .personal ↔ t.entraTenantId = microsoftConsumerTenantId
  /-- A personal workspace has one user at most. -/
  alone : ∀ t ∈ s.tenants, t.accountType = .personal → ∀ u ∈ s.users, ∀ v ∈ s.users,
    u.tenantId = t.id → v.tenantId = t.id → u = v

/-- The row is the workspace of some account. -/
structure IsWorkspace (t : Tenant) : Prop where
  scopeKey : ∃ oid, t.identityScopeKey = identityScopeKey t.entraTenantId oid
  accountType : t.accountType = .personal ↔ t.entraTenantId = microsoftConsumerTenantId

/-- The tables have the workspace of a user with this object id. -/
def Houses (s : Store) (tenantId oid : Uuid) : Prop :=
  ∃ t ∈ s.tenants, t.id = tenantId ∧ t.identityScopeKey = identityScopeKey t.entraTenantId oid

structure Placed (s : Store) : Prop where
  workspace : ∀ t ∈ s.tenants, IsWorkspace t
  housed : ∀ u ∈ s.users, Houses s u.tenantId u.entraObjectId

theorem Placed.wellPlaced {s : Store} (h : Placed s) : WellPlaced s := by
  have hkey : ∀ u ∈ s.users, ∀ t ∈ s.tenants, u.tenantId = t.id →
      t.identityScopeKey = identityScopeKey t.entraTenantId u.entraObjectId := by
    intro u hu t ht htenant
    obtain ⟨t', ht', hid, hscope⟩ := h.housed u hu
    rwa [s.tenantIds.eq ht' ht (hid.trans htenant)] at hscope
  refine ⟨hkey, fun t ht => (h.workspace t ht).accountType, ?_⟩
  intro t ht hpersonal u hu v hv hut hvt
  have hconsumer := (h.workspace t ht).accountType.mp hpersonal
  have heq := (identityScopeKey_eq_iff.mp ((hkey u hu t ht hut).symm.trans (hkey v hv t ht hvt))).2 hconsumer
  exact s.userKeys.eq hu hv (Prod.ext (hut.trans hvt.symm) heq)

/-! ### One lemma for each kind of write -/

section Writes
variable {s s' : Store}

theorem Placed.of_same (h : Placed s) (htenants : s'.tenants = s.tenants) (husers : s'.users = s.users) :
    Placed s' := by
  refine ⟨?_, ?_⟩
  · rw [htenants]
    exact h.workspace
  · unfold Houses
    rw [htenants, husers]
    exact h.housed

/-- An update of a tenant that leaves alone what makes it a workspace. -/
structure KeepsWorkspace (f : Tenant → Tenant) : Prop where
  id : ∀ t, (f t).id = t.id
  entraTenantId : ∀ t, (f t).entraTenantId = t.entraTenantId
  identityScopeKey : ∀ t, (f t).identityScopeKey = t.identityScopeKey
  accountType : ∀ t, (f t).accountType = t.accountType

theorem Houses.update {tenantId oid : Uuid} (h : Houses s tenantId oid) {f : Tenant → Tenant}
    (hf : KeepsWorkspace f) : Houses (s.updateTenants f hf.id hf.identityScopeKey) tenantId oid := by
  obtain ⟨t, ht, hid, hscope⟩ := h
  refine ⟨f t, List.mem_map_of_mem ht, (hf.id t).trans hid, ?_⟩
  rw [hf.identityScopeKey, hf.entraTenantId]
  exact hscope

theorem Placed.updateTenants (h : Placed s) {f : Tenant → Tenant} (hf : KeepsWorkspace f) :
    Placed (s.updateTenants f hf.id hf.identityScopeKey) := by
  refine ⟨?_, fun u hu => (h.housed u hu).update hf⟩
  intro t' ht'
  obtain ⟨t, ht, rfl⟩ := List.mem_map.mp ht'
  obtain ⟨hscope, htype⟩ := h.workspace t ht
  refine ⟨?_, ?_⟩
  · rw [hf.identityScopeKey, hf.entraTenantId]
    exact hscope
  · rw [hf.accountType, hf.entraTenantId]
    exact htype

theorem Placed.updateUsers (h : Placed s) {f : User → User} (hid : ∀ u, (f u).id = u.id)
    (hkey : ∀ u, (f u).key = u.key) : Placed (s.updateUsers f hid hkey) := by
  refine ⟨h.workspace, ?_⟩
  intro u' hu'
  obtain ⟨u, hu, rfl⟩ := List.mem_map.mp hu'
  obtain ⟨htenant, hoid⟩ := Prod.mk.inj (hkey u)
  rw [htenant, hoid]
  exact h.housed u hu

theorem Houses.mono {tenantId oid : Uuid} (h : Houses s tenantId oid)
    (hsub : ∀ t ∈ s.tenants, t ∈ s'.tenants) : Houses s' tenantId oid := by
  obtain ⟨t, ht, hrest⟩ := h
  exact ⟨t, hsub t ht, hrest⟩

theorem Placed.insertTenant (h : Placed s) {t : Tenant} (ht : IsWorkspace t) :
    Ends (fun _ => True) (fun s' => Placed s' ∧ t ∈ s'.tenants) (s.insertTenant t) := by
  unfold Store.insertTenant
  split_ifs
  case neg =>
    refine ⟨⟨?_, fun u hu => (h.housed u hu).mono fun t ht => List.mem_append_left _ ht⟩, by simp⟩
    intro t' ht'
    cases List.mem_append.mp ht' with
    | inl ht' => exact h.workspace t' ht'
    | inr ht' =>
      rw [List.mem_singleton.mp ht']
      exact ht
  all_goals trivial

theorem Placed.insertUser (h : Placed s) {u : User} (hu : Houses s u.tenantId u.entraObjectId) :
    Ends (fun _ => True) Placed (s.insertUser u) := by
  unfold Store.insertUser
  split_ifs
  case neg =>
    refine ⟨h.workspace, ?_⟩
    intro v hv
    cases List.mem_append.mp hv with
    | inl hv => exact h.housed v hv
    | inr hv =>
      rw [List.mem_singleton.mp hv]
      exact hu
  all_goals trivial

end Writes

/-! ### The functions of the repository -/

section Functions
variable {s : Store} {host : Host}

theorem keepsWorkspace_renameTenant (id : Uuid) (name : String) : KeepsWorkspace (renameTenant id name) := by
  constructor <;> intro t <;> rw [renameTenant_eq]

/-- The tenant found or made is the workspace of the account. -/
theorem getOrCreateTenant_placed (h : Placed s) (entraTenantId oid : Uuid) (displayName : Option String) :
    Ends (fun _ => True) (fun r => Placed r.2.2 ∧ Houses r.2.2 r.1.id oid)
      (getOrCreateTenant host entraTenantId (identityScopeKey entraTenantId oid)
        (if isPersonalAccount entraTenantId then .personal else .organization) displayName s) := by
  unfold getOrCreateTenant
  cases hget : getTenantByScopeKey (identityScopeKey entraTenantId oid) s with
  | some t =>
    have ht := List.mem_of_find?_eq_some hget
    have hscope : t.identityScopeKey = identityScopeKey entraTenantId oid := by
      simpa using List.find?_some hget
    have hhouses : Houses s t.id oid := by
      obtain ⟨oid', hroot⟩ := (h.workspace t ht).scopeKey
      refine ⟨t, ht, rfl, ?_⟩
      rw [hscope, (identityScopeKey_eq_iff.mp (hroot.symm.trans hscope)).1]
    show Ends _ _ (if _ then _ else _)
    split_ifs
    · exact ⟨h, hhouses⟩
    · trivial
    · trivial
    · exact ⟨h.updateTenants (keepsWorkspace_renameTenant _ _), hhouses.update (keepsWorkspace_renameTenant _ _)⟩
  | none =>
    refine (h.insertTenant ⟨⟨oid, rfl⟩, ?_⟩).map fun s' hs' => ⟨hs'.1, _, hs'.2, rfl, rfl⟩
    by_cases hpersonal : entraTenantId = microsoftConsumerTenantId
    · simp [isPersonalAccount, hpersonal]
    · simp [isPersonalAccount, hpersonal]

theorem synchronizeUser_placed (h : Placed s) {tenantId oid : Uuid} (hhouses : Houses s tenantId oid)
    (displayName : String) (principalName : Option String) :
    Ends (fun _ => True) (fun r => Placed r.2)
      (synchronizeUser host tenantId oid displayName principalName s) := by
  unfold synchronizeUser
  cases getUser tenantId oid s with
  | none => exact (h.insertUser hhouses).map fun _ hs' => hs'
  | some user =>
    show Ends _ _ (if _ then _ else _)
    split_ifs
    · exact h.updateUsers (signedIn_id _ _ _ _) (signedIn_key _ _ _ _)
    · trivial

theorem getOrCreateRole_same (tenantId : Uuid) (name description : String) :
    Ends (fun _ => True) (fun r => r.2.tenants = s.tenants ∧ r.2.users = s.users)
      (getOrCreateRole host tenantId name description s) := by
  unfold getOrCreateRole
  cases s.roles.find? fun r => r.tenantId = tenantId ∧ r.name = name with
  | some role => exact ⟨rfl, rfl⟩
  | none =>
    have hinsert : Ends (fun _ => True) (fun s' : Store => s'.tenants = s.tenants ∧ s'.users = s.users)
        (s.insertRole ⟨host.roleId, tenantId, name, description, true⟩) := by
      unfold Store.insertRole
      split_ifs
      case neg => exact ⟨rfl, rfl⟩
      all_goals trivial
    exact hinsert.map fun _ hs' => hs'

theorem upsertOAuthConnection_same (tenantId userId : Uuid) (encrypted : String) (scopes : List String)
    (authority : String) : Ends (fun _ => True) (fun s' => s'.tenants = s.tenants ∧ s'.users = s.users)
      (upsertOAuthConnection host tenantId userId encrypted scopes authority s) := by
  unfold upsertOAuthConnection
  cases getOAuthConnection tenantId userId s with
  | some connection =>
    show Ends _ _ (if _ then _ else _)
    split_ifs
    · exact ⟨rfl, rfl⟩
    · trivial
  | none =>
    show Ends _ _ (Store.insertConnection _ _)
    unfold Store.insertConnection
    split_ifs
    case neg => exact ⟨rfl, rfl⟩
    all_goals trivial

end Functions

/-! ### The requests -/

section Requests
variable {s : Store} {host : Host} {w : World}

/-- What a request leaves is what it found, or what one of the functions that write left. -/
theorem handle_keeps {I : Store → Prop} (hs : I s)
    (hresolve : ∀ p identity s', resolveAndSync host p s = .ok (identity, s') → I s')
    (honboard : ∀ p encrypted authority identity s',
      onboardOAuthUser host p none encrypted oauthScopes authority s = .ok (identity, s') → I s')
    (hconnect : ∀ tenantId userId encrypted authority s',
      upsertOAuthConnection host tenantId userId encrypted oauthScopes authority s = .ok s' → I s')
    (r : Request) : I (handle w host r s).2 := by
  cases r with
  | profile sessionCookie credentials =>
    unfold handle
    dsimp only
    cases hresult : getIdentity w host sessionCookie credentials s with
    | error rejection => exact hs
    | ok result =>
      unfold getIdentity at hresult
      split at hresult
      · obtain ⟨claims, _, hresult⟩ := bind_eq_ok.mp hresult
        obtain ⟨identity, _, hresult⟩ := bind_eq_ok.mp hresult
        cases hresult
        exact hs
      · obtain ⟨p, _, hresult⟩ := bind_eq_ok.mp hresult
        exact hresolve p result.1 result.2 hresult
      · cases hresult
  | callback r =>
    show I (callback w host r s).2
    unfold callback
    cases hresult : callbackTransaction w host r s with
    | error rejection => exact hs
    | ok result =>
      obtain ⟨authorized, _, hrun⟩ := bind_eq_ok.mp hresult
      have hkept := honboard _ _ _ result.1 result.2 hrun
      obtain ⟨identity, s'⟩ := result
      dsimp only
      cases w.encodeSession (sessionClaims identity) <;> exact hkept
  | token r =>
    unfold handle
    dsimp only
    cases hresult : delegatedAzureToken w host r s with
    | error rejection => exact hs
    | ok result =>
      unfold delegatedAzureToken at hresult
      obtain ⟨_, _, hresult⟩ := bind_eq_ok.mp hresult
      obtain ⟨connection, _, hresult⟩ := bind_eq_ok.mp hresult
      obtain ⟨refreshToken, _, hresult⟩ := bind_eq_ok.mp hresult
      obtain ⟨tokens, _, hresult⟩ := bind_eq_ok.mp hresult
      split at hresult
      case h_1 => cases hresult
      case h_2 =>
        obtain ⟨s', hrotate, hresult⟩ := bind_eq_ok.mp hresult
        have hkept : I s' := by
          unfold rotate at hrotate
          split at hrotate
          case h_1 =>
            cases hrotate
            exact hs
          case h_2 =>
            obtain ⟨encrypted, _, hrotate⟩ := bind_eq_ok.mp hrotate
            exact hconnect _ _ encrypted _ s' (of_statement hrotate)
        split at hresult
        case h_1 => cases hresult
        case h_2 =>
          cases hresult
          exact hkept

theorem resolveAndSync_placed (h : Placed s) (p : TokenPrincipal) :
    Ends (fun _ => True) (fun r => Placed r.2) (resolveAndSync host p s) := by
  unfold resolveAndSync
  cases hget : getTenantByScopeKey (identityScopeKey p.entraTenantId p.entraObjectId) s with
  | none => trivial
  | some t =>
    have ht := List.mem_of_find?_eq_some hget
    have hscope : t.identityScopeKey = identityScopeKey p.entraTenantId p.entraObjectId := by
      simpa using List.find?_some hget
    obtain ⟨oid, hroot⟩ := (h.workspace t ht).scopeKey
    have hhouses : Houses s t.id p.entraObjectId := by
      refine ⟨t, ht, rfl, ?_⟩
      rw [hscope, (identityScopeKey_eq_iff.mp (hroot.symm.trans hscope)).1]
    show Ends _ _ (if _ then _ else _)
    split_ifs
    · trivial
    · refine ((synchronizeUser_placed h hhouses _ _).mapError fun _ _ => trivial).bind fun r hr => ?_
      show Ends _ _ (if _ then _ else _)
      split_ifs
      · trivial
      · exact hr

theorem onboardOAuthUser_placed (h : Placed s) (p : TokenPrincipal) (name : Option String) (encrypted : String)
    (scopes : List String) (authority : String) : Ends (fun _ => True) (fun r => Placed r.2)
      (onboardOAuthUser host p name encrypted scopes authority s) := by
  unfold onboardOAuthUser
  refine ((getOrCreateTenant_placed h _ _ _).mapError fun _ _ => trivial).bind fun r hr => ?_
  refine ((synchronizeUser_placed hr.1 hr.2 _ _).mapError fun _ _ => trivial).bind fun r hr => ?_
  refine ((getOrCreateRole_same _ _ _).mapError fun _ _ => trivial).bind fun r' hr' => ?_
  refine ((upsertOAuthConnection_same _ _ _ _ _).mapError fun _ _ => trivial).bind fun s₃ hs₃ => ?_
  apply hr.of_same
  · exact hs₃.1.trans ((assignRole_same _ _ _ _).tenants.trans ((grantPermissions_same _ _ _).tenants.trans hr'.1))
  · exact hs₃.2.trans ((assignRole_same _ _ _ _).users.trans ((grantPermissions_same _ _ _).users.trans hr'.2))

theorem handle_placed (h : Placed s) (r : Request) : Placed (handle w host r s).2 := by
  refine handle_keeps h ?_ ?_ ?_ r
  · exact fun p identity s' hresolve => (resolveAndSync_placed h p).of_ok hresolve
  · exact fun p encrypted authority identity s' honboard => (onboardOAuthUser_placed h p none _ _ _).of_ok honboard
  · intro tenantId userId encrypted authority s' hconnect
    have hsame := (upsertOAuthConnection_same tenantId userId encrypted oauthScopes authority).of_ok hconnect
    exact h.of_same hsame.1 hsame.2

end Requests

/-! ### Bootstrap -/

section Bootstrap
variable {s : Store} {host : Host} {permissionIds : String → Uuid} {settings : BootstrapSettings}

/-- A bootstrap for the tenant of personal accounts finds its workspace already there, and
adds nobody to it but the account with object id zero. -/
def BootstrapFits (settings : BootstrapSettings) (s : Store) : Prop :=
  settings.tenantId = some microsoftConsumerTenantId →
    (∃ t ∈ s.tenants, t.identityScopeKey = identityScopeKey microsoftConsumerTenantId 0) ∧
      ∀ oid ∈ settings.adminObjectId, oid = 0

theorem bootstrapPermissions_same (permissions : List (String × String)) :
    Ends (fun _ => True) (fun s' => s'.tenants = s.tenants ∧ s'.users = s.users)
      (bootstrapPermissions permissionIds permissions s) := by
  induction permissions generalizing s with
  | nil => exact ⟨rfl, rfl⟩
  | cons p rest ih =>
    obtain ⟨name, description⟩ := p
    have hstep : Ends (fun _ => True) (fun s' : Store => s'.tenants = s.tenants ∧ s'.users = s.users)
        (bootstrapPermission permissionIds name description s) := by
      unfold bootstrapPermission
      cases s.permissions.find? fun p => p.name = name with
      | some _ => exact ⟨rfl, rfl⟩
      | none =>
        show Ends _ _ (Store.insertPermission _ _)
        unfold Store.insertPermission
        split_ifs
        case neg => exact ⟨rfl, rfl⟩
        all_goals trivial
    refine hstep.bind fun s' hs' => ih.mono (fun _ _ => trivial) fun s'' hs'' => ?_
    exact ⟨hs''.1.trans hs'.1, hs''.2.trans hs'.2⟩

theorem bootstrapTenant_placed (h : Placed s) {entraTenantId : Uuid}
    (hfits : entraTenantId = microsoftConsumerTenantId →
      ∃ t ∈ s.tenants, t.identityScopeKey = identityScopeKey entraTenantId 0) :
    Ends (fun _ => True) (fun r => Placed r.2 ∧ r.1 ∈ r.2.tenants ∧ r.1.entraTenantId = entraTenantId ∧
      r.1.identityScopeKey = identityScopeKey entraTenantId 0) (bootstrapTenant host settings entraTenantId s) := by
  unfold bootstrapTenant
  cases hget : getTenantByScopeKey (identityScopeKey entraTenantId 0) s with
  | some t =>
    have ht := List.mem_of_find?_eq_some hget
    have hscope : t.identityScopeKey = identityScopeKey entraTenantId 0 := by simpa using List.find?_some hget
    obtain ⟨oid, hroot⟩ := (h.workspace t ht).scopeKey
    exact ⟨h, ht, (identityScopeKey_eq_iff.mp (hroot.symm.trans hscope)).1, hscope⟩
  | none =>
    have hother : entraTenantId ≠ microsoftConsumerTenantId := by
      intro heq
      obtain ⟨t, ht, hscope⟩ := hfits heq
      simpa [hscope] using List.find?_eq_none.mp hget t ht
    refine (h.insertTenant ⟨⟨0, rfl⟩, ?_⟩).map fun s' hs' => ⟨hs'.1, hs'.2, rfl, rfl⟩
    simp [hother]

theorem bootstrapAdmin_placed (h : Placed s) {tenantId oid : Uuid} (hhouses : Houses s tenantId oid) :
    Ends (fun _ => True) (fun r => Placed r.2) (bootstrapAdmin host settings tenantId oid s) := by
  unfold bootstrapAdmin
  cases getUser tenantId oid s with
  | some user => exact h
  | none => exact (h.insertUser hhouses).map fun _ hs' => hs'

theorem bootstrapIdentity_placed (h : Placed s) (hfits : BootstrapFits settings s) :
    Ends (fun _ => True) Placed (bootstrapIdentity host permissionIds settings s) := by
  unfold bootstrapIdentity
  refine (bootstrapPermissions_same permissionDescriptions).bind fun s₁ hs₁ => ?_
  have h₁ := h.of_same hs₁.1 hs₁.2
  cases htenant : settings.tenantId with
  | none => exact h₁
  | some entraTenantId =>
    have hfits₁ : entraTenantId = microsoftConsumerTenantId →
        ∃ t ∈ s₁.tenants, t.identityScopeKey = identityScopeKey entraTenantId 0 := by
      intro heq
      rw [hs₁.1, heq]
      exact (hfits (heq ▸ htenant)).1
    refine (bootstrapTenant_placed h₁ hfits₁).bind fun r hr => ?_
    obtain ⟨t, s₂⟩ := r
    obtain ⟨h₂, ht, hentra, hscope⟩ := hr
    refine (getOrCreateRole_same _ _ _).bind fun r hr => ?_
    have hsame := grantPermissions_same r.1 (permissionDescriptions.map Prod.fst) r.2
    have h₃ := h₂.of_same (hsame.tenants.trans hr.1) (hsame.users.trans hr.2)
    cases hadmin : settings.adminObjectId with
    | none => exact h₃
    | some oid =>
      have hhouses : Houses (grantPermissions r.1 (permissionDescriptions.map Prod.fst) r.2) t.id oid := by
        refine ⟨t, ?_, rfl, ?_⟩
        · rw [hsame.tenants, hr.1]
          exact ht
        · rw [hscope, hentra, identityScopeKey_eq_iff]
          exact ⟨rfl, fun heq => ((hfits (heq ▸ htenant)).2 oid hadmin).symm⟩
      refine (bootstrapAdmin_placed h₃ hhouses).bind fun r' hr' => ?_
      have hassign := assignRole_same t.id r'.1.id r.1.id r'.2
      exact hr'.of_same hassign.tenants hassign.users

end Bootstrap

/-! ### Whole runs -/

/-- The step is no bootstrap, or one that fits. -/
def Fits (s : Store) (action : Action) (_ : Store) : Prop :=
  match action with
  | .bootstrap _ _ settings => BootstrapFits settings s
  | _ => True

theorem placed_step {s s' : Store} {action : Action} (h : Placed s) (hstep : step action s = some s')
    (hfits : Fits s action s') : Placed s' := by
  cases action with
  | bootstrap host permissionIds settings =>
    simp only [step] at hstep
    cases hresult : bootstrapIdentity host permissionIds settings s with
    | error f => simp [hresult] at hstep
    | ok s'' =>
      rw [hresult] at hstep
      cases hstep
      exact (bootstrapIdentity_placed h hfits).of_ok hresult
  | request w host r =>
    cases hstep
    exact handle_placed h r
  | setStatus tenantId status =>
    cases hstep
    refine h.updateTenants ⟨?_, ?_, ?_, ?_⟩ <;> intro t <;> unfold setStatus <;> split_ifs <;> rfl
  | setActive userId isActive =>
    cases hstep
    exact h.updateUsers _ _

theorem placed_empty : Placed .empty := ⟨by simp [Store.empty], by simp [Store.empty]⟩

/-- **Every user lives in the workspace their scope key names**, in every state of a run
whose bootstraps fit; and accounts have one workspace exactly when they share an Entra
tenant, and the account too if that tenant is the one of personal accounts. -/
theorem well_placed (actions : List Action) (hfits : EveryStep step Fits actions .empty) :
    Always step WellPlaced actions .empty ∧
    ∀ p q : TokenPrincipal, identityScopeKey p.entraTenantId p.entraObjectId =
        identityScopeKey q.entraTenantId q.entraObjectId ↔
      p.entraTenantId = q.entraTenantId ∧
        (p.entraTenantId = microsoftConsumerTenantId → p.entraObjectId = q.entraObjectId) := by
  refine ⟨?_, fun p q => identityScopeKey_eq_iff⟩
  have hall := EveryStep.of_guarded (I := Placed) (Q := fun _ _ s' => Placed s') placed_empty hfits
    (fun a s s' h hstep hc => placed_step h hstep hc) fun a s s' h hstep hc => placed_step h hstep hc
  exact hall.always placed_empty |>.mono fun s h => h.wellPlaced

/-- A bootstrap for the tenant of personal accounts, on empty tables. -/
def consumerBootstrap : Action :=
  .bootstrap sampleHost samplePermissionIds (sampleSettings (some microsoftConsumerTenantId) (some 6))

theorem consumerBootstrap_run : (run step [consumerBootstrap] .empty).any (fun s => s.tenants.any fun t =>
    t.accountType = .organization ∧ t.entraTenantId = microsoftConsumerTenantId) = true := by
  decide +kernel

/-- It makes an organization's workspace of it, and puts the administrator there. -/
theorem misplaced : ¬ Always step WellPlaced [consumerBootstrap] .empty := by
  intro h
  obtain ⟨s, hrun⟩ := Option.isSome_iff_exists.mp (Option.isSome_of_any consumerBootstrap_run)
  have hany := consumerBootstrap_run
  rw [hrun, Option.any_some, List.any_eq_true] at hany
  obtain ⟨t, ht, hrow⟩ := hany
  obtain ⟨htype, hconsumer⟩ := of_decide_eq_true hrow
  have hpersonal := ((h.last hrun).accountType t ht).mpr hconsumer
  rw [htype] at hpersonal
  cases hpersonal

/-- An organization's bootstrap, and a sign-in to it. -/
def organizationRun : List Action :=
  [.bootstrap sampleHost samplePermissionIds (sampleSettings (some 5) (some 6)),
    .request sampleWorld laterHost (.callback sampleCallback)]

theorem well_placed_organizationRun : Always step WellPlaced organizationRun .empty := by
  refine (well_placed organizationRun ?_).1
  intro s _
  refine ⟨fun h => ?_, fun s' _ => ⟨trivial, trivial⟩⟩
  exact absurd h (by decide +kernel)

end Sentinel.Identity
