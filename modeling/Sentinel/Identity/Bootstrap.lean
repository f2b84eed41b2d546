import Sentinel.Identity.Main
import Sentinel.Library.Transition

/-! `bootstrap_identity`, and the states of the identity tables a deployment can reach.

Besides the service, operators write: they set the status of a tenant and switch users on
and off, with statements of their own. -/
namespace Sentinel.Identity
open Library

/-- `PERMISSIONS`. -/
def permissionDescriptions : List (String × String) :=
  [("tenant.onboarding.manage", "Manage tenant onboarding"),
    ("identity.roles.read", "Read roles and permissions"),
    ("identity.roles.assign", "Assign internal roles"),
    ("inventory.resources.read", "Read Azure resource inventory"),
    ("inventory.sync.execute", "Run Azure inventory synchronization"),
    ("relationships.read", "Read dependency relationships"),
    ("analysis.create", "Create change assessments"),
    ("analysis.read", "Read change assessments"),
    ("operations.create", "Create governed operations"),
    ("operations.approve", "Approve governed operations"),
    ("operations.execute", "Execute approved operations"),
    ("operations.cancel", "Cancel operations"),
    ("audit.read", "Read audit evidence"),
    ("audit.export", "Export audit evidence"),
    ("settings.manage", "Manage tenant settings")]

/-- The settings `bootstrap_identity` reads. -/
structure BootstrapSettings where
  tenantId : Option Uuid
  tenantName : String
  adminObjectId : Option Uuid
  adminName : String

section Bootstrap
variable (host : Host) (permissionIds : String → Uuid) (settings : BootstrapSettings)

def bootstrapPermission (name description : String) (s : Store) : Except Failure Store :=
  match s.permissions.find? fun p => p.name = name with
  | some _ => .ok s
  | none => s.insertPermission ⟨permissionIds name, name, description⟩

/-- The loop over `PERMISSIONS`. -/
def bootstrapPermissions : List (String × String) → Store → Except Failure Store
  | [], s => .ok s
  | (name, description) :: rest, s =>
    (bootstrapPermission permissionIds name description s).bind (bootstrapPermissions rest)

def bootstrapTenant (entraTenantId : Uuid) (s : Store) : Except Failure (Tenant × Store) :=
  match getTenantByScopeKey (identityScopeKey entraTenantId 0) s with
  | some tenant => .ok (tenant, s)
  | none =>
    let tenant := {
      id := host.tenantId
      entraTenantId := entraTenantId
      identityScopeKey := identityScopeKey entraTenantId 0
      accountType := .organization
      displayName := settings.tenantName
      status := .active
      consentedAt := none }
    (s.insertTenant tenant).map fun s => (tenant, s)

def bootstrapAdmin (tenantId objectId : Uuid) (s : Store) : Except Failure (User × Store) :=
  match getUser tenantId objectId s with
  | some user => .ok (user, s)
  | none =>
    let user := {
      id := host.userId
      tenantId := tenantId
      entraObjectId := objectId
      principalName := none
      displayName := settings.adminName
      email := none
      isActive := true
      lastLoginAt := none
      version := 1 }
    (s.insertUser user).map fun s => (user, s)

def bootstrapIdentity (s : Store) : Except Failure Store := do
  let s ← bootstrapPermissions permissionIds permissionDescriptions s
  match settings.tenantId with
  | none => return s
  | some entraTenantId => do
    let (tenant, s) ← bootstrapTenant host settings entraTenantId s
    let (role, s) ← getOrCreateRole host tenant.id "TenantAdministrator"
      "Full Sentinel administration within one tenant" s
    let s := grantPermissions role (permissionDescriptions.map Prod.fst) s
    match settings.adminObjectId with
    | none => return s
    | some objectId => do
      let (user, s) ← bootstrapAdmin host settings tenant.id objectId s
      return assignRole tenant.id user.id role.id s

end Bootstrap

/-! ### The machine -/

/-- An operator's update of the status of a tenant. -/
def setStatus (tenantId : Uuid) (status : TenantStatus) (t : Tenant) : Tenant :=
  if t.id = tenantId then {t with status := status} else t

/-- An operator's update of the flag of a user. -/
def setActive (userId : Uuid) (isActive : Bool) (u : User) : User :=
  if u.id = userId then {u with isActive := isActive} else u

inductive Action where
  | bootstrap (host : Host) (permissionIds : String → Uuid) (settings : BootstrapSettings)
  | request (w : World) (host : Host) (r : Request)
  | setStatus (tenantId : Uuid) (status : TenantStatus)
  | setActive (userId : Uuid) (isActive : Bool)

def step (action : Action) (s : Store) : Option Store :=
  match action with
  | .bootstrap host permissionIds settings =>
    match bootstrapIdentity host permissionIds settings s with
    | .error _ => none
    | .ok s => some s
  | .request w host r => some (handle w host r s).2
  | .setStatus tenantId status =>
    some (s.updateTenants (setStatus tenantId status)
      (fun t => by unfold setStatus; split_ifs <;> rfl)
      (fun t => by unfold setStatus; split_ifs <;> rfl))
  | .setActive userId isActive =>
    some (s.updateUsers (setActive userId isActive)
      (fun u => by unfold setActive; split_ifs <;> rfl)
      (fun u => by unfold setActive; split_ifs <;> rfl))

/-- The states a deployment reaches from empty tables. -/
abbrev Reached (s : Store) : Prop := Transition.Reachable step .empty s

/-! ### A small deployment -/

def samplePrincipal : TokenPrincipal where
  entraTenantId := 5
  entraObjectId := 6
  displayName := "Ada"
  principalName := some "ada@example.com"

/-- A provider that accepts every code and refresh token. -/
def sampleWorld : World where
  py := .ascii
  internalApiToken := some "internal"
  microsoftClientId := some "client"
  exchangeCode := fun _ _ _ => .ok ⟨[("id_token", .str "id"), ("access_token", .str "access"),
    ("refresh_token", .str "refresh")], by simp [Json.WellFormed]⟩
  refresh := fun _ _ => .ok ⟨[("access_token", .str "azure")], by simp [Json.WellFormed]⟩
  validate := fun _ _ => .ok samplePrincipal
  encrypt := fun s => .ok ("fernet:" ++ s)
  decrypt := fun _ => .ok "refresh"
  encodeSession := fun _ => .ok "session"
  decodeSession := fun _ => .ok ⟨2, 1, 5, 6⟩

def sampleHost : Host where
  consentedAt := 0
  lastLoginAt := 0
  lastRefreshedAt := 0
  rolesAt := 0
  permissionsAt := 0
  tenantId := 1
  userId := 2
  roleId := 3
  connectionId := 4

/-- A later request of the same user. -/
def laterHost : Host := {sampleHost with tenantId := 11, userId := 12, roleId := 13, connectionId := 14}

def sampleCallback : CallbackRequest where
  code := "code"
  state := "state"
  stateCookie := some "state"
  verifierCookie := some "verifier"
  tenantCookie := none

def sampleToken : TokenRequest where
  tenantId := 1
  userId := 2
  internalToken := some "internal"

def sampleSettings (tenantId adminObjectId : Option Uuid) : BootstrapSettings where
  tenantId := tenantId
  tenantName := "Development"
  adminObjectId := adminObjectId
  adminName := "Administrator"

/-- Ids for the permissions, by their place in the table. -/
def samplePermissionIds (name : String) : Uuid :=
  .ofNat 128 (100 + (permissionDescriptions.map Prod.fst).idxOf name)

end Sentinel.Identity
