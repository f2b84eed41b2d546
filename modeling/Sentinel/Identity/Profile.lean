import Sentinel.Common.Context
import Sentinel.Identity.Privileges
import Sentinel.Identity.Revocation
import Sentinel.Library.Fallible

/-! Who a service takes a request to be from.

A service passes the cookie and the bearer token of a request on to the identity service
(`IdentityProfileClient`), reads the actor from the profile that comes back as JSON, and
looks for the permission it wants among the names in it. -/
namespace Sentinel.Identity
open Library Library.Fallible Common

/-- `ActorContext`, whole. -/
structure Actor extends ActorContext where
  entraObjectId : Uuid
  displayName : String
  principalName : Option String
  permissions : List String

structure ProfileResponse where
  userId : Uuid
  tenantId : Uuid
  entraTenantId : Uuid
  entraObjectId : Uuid
  displayName : String
  principalName : Option String
  roles : List String
  permissions : List String

/-- `sorted`, of texts. -/
def sortedTexts (texts : List String) : List String := texts.insertionSort (· ≤ ·)

/-- What `profile` answers. -/
def profileResponse (identity : ResolvedIdentity) : ProfileResponse where
  userId := identity.user.id
  tenantId := identity.tenant.id
  entraTenantId := identity.tenant.entraTenantId
  entraObjectId := identity.user.entraObjectId
  displayName := identity.user.displayName
  principalName := identity.user.principalName
  roles := sortedTexts (identity.roles.map Role.name)
  permissions := sortedTexts (identity.permissions.map Permission.name)

def ProfileResponse.json (p : ProfileResponse) : Json.Object where
  members := [("user_id", .str (Uuid.str p.userId)), ("tenant_id", .str (Uuid.str p.tenantId)),
    ("entra_tenant_id", .str (Uuid.str p.entraTenantId)), ("entra_object_id", .str (Uuid.str p.entraObjectId)),
    ("display_name", .str p.displayName), ("principal_name", Json.textOrNull p.principalName),
    ("roles", .arr (p.roles.map .str)), ("permissions", .arr (p.permissions.map .str))]
  wellFormed := by
    cases hname : p.principalName <;> simp [Json.WellFormed, Json.textOrNull]

/-- The status of the answer to a request that gets none. -/
def Rejection.status : Rejection → Nat
  | .http status _ => status
  | .provider _ => 401
  | .exception _ | .database _ => 500

section Identified
variable (w : World) (host : Host)

/-- `profile`: what the identity service answers, and its tables after. -/
def profile (sessionCookie credentials : Option String) (s : Store) : Except Rejection Json.Object × Store :=
  match getIdentity w host sessionCookie credentials s with
  | .error rejection => (.error rejection, s)
  | .ok (identity, s') => (.ok (profileResponse identity).json, s')

end Identified

/-- `IdentityProfileClient.resolve`, of the answer. -/
def resolveProfile : Except Rejection Json.Object → Except Rejection Json.Object
  | .ok body => .ok body
  | .error rejection =>
    if rejection.status = 401 then .error (.http 401 "Authentication failed")
    else if rejection.status = 403 then .error (.http 403 "Tenant or user is not authorized")
    else .error (.exception "raise_for_status")

section Actor
variable (uuid : String → Option Uuid)

/-- `UUID(profile[name])`. -/
def profileUuid (profile : Json.Object) (name : String) : Except Rejection Uuid :=
  match profile.get name with
  | some (.str text) =>
    match uuid text with
    | some u => .ok u
    | none => .error (.exception "badly formed hexadecimal UUID string")
  | _ => .error (.exception "no text")

def profileText (profile : Json.Object) (name : String) : Except Rejection String :=
  match profile.get name with
  | some (.str text) => .ok text
  | _ => .error (.exception "no text")

/-- `profile.get(name)`. -/
def profileTextOrNone (profile : Json.Object) (name : String) : Except Rejection (Option String) :=
  match profile.get name with
  | some (.str text) => .ok (some text)
  | some .null | none => .ok none
  | _ => .error (.exception "no text")

def itemText : Json → Except Rejection String
  | .str text => .ok text
  | _ => .error (.exception "no text")

def profileTexts (profile : Json.Object) (name : String) : Except Rejection (List String) :=
  match profile.get name with
  | some (.arr items) => items.mapM itemText
  | _ => .error (.exception "no list")

/-- `get_actor`, of the profile. -/
def getActor (profile : Json.Object) (correlationId : Uuid) : Except Rejection Actor := do
  return {
    tenantId := ← profileUuid uuid profile "tenant_id"
    entraTenantId := ← profileUuid uuid profile "entra_tenant_id"
    actorId := ← profileUuid uuid profile "user_id"
    entraObjectId := ← profileUuid uuid profile "entra_object_id"
    displayName := ← profileText profile "display_name"
    principalName := ← profileTextOrNone profile "principal_name"
    permissions := ← profileTexts profile "permissions"
    correlationId := correlationId }

/-- `permission_dependency`. -/
def requirePermission (permission : String) (actor : Actor) : Except Rejection Actor :=
  if permission ∈ actor.permissions then .ok actor
  else .error (.http 403 ("Permission " ++ permission ++ " is required"))

/-- The dependencies of an endpoint, of what the identity service answered. -/
def requireActor (permission : String) (correlationId : Uuid) (answer : Except Rejection Json.Object) :
    Except Rejection Actor := do
  requirePermission permission (← getActor uuid (← resolveProfile answer) correlationId)

end Actor

/-! ### Whom the identity service takes it to be from -/

/-- The identity is what the tables hold now of an account that is active. -/
structure Current (host : Host) (s : Store) (identity : ResolvedIdentity) : Prop where
  tenant : identity.tenant ∈ s.tenants
  status : identity.tenant.status = .active
  user : identity.user ∈ s.users
  userTenantId : identity.user.tenantId = identity.tenant.id
  isActive : identity.user.isActive = true
  roles : identity.roles = effectiveRoles host identity.tenant.id identity.user.id s
  permissions : identity.permissions = effectivePermissions host identity.tenant.id identity.user.id s

section Identified
variable {host : Host} {s s' : Store} {identity : ResolvedIdentity}

/-- A session is resolved to the rows with its ids, if they are active. -/
theorem resolveSession_eq_ok_iff {t : Tenant} {u : User} (ht : t ∈ s.tenants) (hu : u ∈ s.users)
    (hut : u.tenantId = t.id) : resolveSession host t.id u.id s = .ok identity ↔
      Current host s identity ∧ identity.tenant.id = t.id ∧ identity.user.id = u.id := by
  have huser : getUserById t.id u.id s = some u := hut ▸ getUserById_of_mem hu
  have htenant : getTenantById t.id s = some t := s.tenantIds.find? ht rfl
  constructor
  · intro hresolve
    unfold resolveSession at hresolve
    simp only [huser, htenant] at hresolve
    split_ifs at hresolve with hactive hstatus
    cases hresolve
    exact ⟨⟨ht, not_not.mp hstatus, hu, hut, by simpa using hactive, rfl, rfl⟩, rfl, rfl⟩
  · rintro ⟨hcurrent, htid, huid⟩
    obtain rfl : identity.tenant = t := s.tenantIds.eq hcurrent.tenant ht htid
    obtain rfl : identity.user = u := s.userIds.eq hcurrent.user hu huid
    unfold resolveSession
    rw [huser, htenant, ← hcurrent.roles, ← hcurrent.permissions]
    simp only [hcurrent.isActive, hcurrent.status]
    rfl

/-- A bearer token is resolved to the account of its principal. -/
theorem resolveAndSync_current {p : TokenPrincipal} (h : resolveAndSync host p s = .ok (identity, s')) :
    Current host s' identity ∧
      identity.tenant.identityScopeKey = identityScopeKey p.entraTenantId p.entraObjectId ∧
      identity.user.entraObjectId = p.entraObjectId := by
  unfold resolveAndSync at h
  split at h
  case h_1 => cases h
  case h_2 t hget =>
    split_ifs at h with hstatus
    obtain ⟨⟨u, s₁⟩, hsync, h⟩ := bind_eq_ok.mp h
    have huser := synchronizeUser_at (of_statement hsync)
    obtain ⟨hu, hut, huo⟩ := mem_of_getUser huser.found
    have htenants : s₁.tenants = s.tenants := congrArg Rows.tenants huser.rows
    have ht : t ∈ s₁.tenants := htenants ▸ List.mem_of_find?_eq_some hget
    dsimp only at h
    split_ifs at h with hactive
    cases h
    exact ⟨⟨ht, not_not.mp hstatus, hu, hut, by simpa using hactive, rfl, rfl⟩,
      by simpa using List.find?_some hget, huo⟩

theorem getIdentity_writes {w : World} {sessionCookie credentials : Option String}
    (h : getIdentity w host sessionCookie credentials s = .ok (identity, s')) : Writes s s' := by
  unfold getIdentity at h
  split at h
  · obtain ⟨claims, -, h⟩ := bind_eq_ok.mp h
    obtain ⟨identity', -, h⟩ := bind_eq_ok.mp h
    cases h
    exact .refl
  · obtain ⟨p, -, h⟩ := bind_eq_ok.mp h
    exact (resolveAndSync_writes h).1
  · cases h

/-- Who sends a session has no need of a bearer token. -/
theorem getIdentity_session {w : World} {sessionCookie : Option String} {token : String}
    (h : present sessionCookie = some token) (credentials : Option String) :
    getIdentity w host sessionCookie credentials s = getIdentity w host sessionCookie none s := by
  unfold getIdentity
  rw [h]

end Identified

/-! ### The profile read back -/

/-- The actor of an identity. -/
def actorOf (identity : ResolvedIdentity) (correlationId : Uuid) : Actor where
  tenantId := identity.tenant.id
  entraTenantId := identity.tenant.entraTenantId
  actorId := identity.user.id
  entraObjectId := identity.user.entraObjectId
  displayName := identity.user.displayName
  principalName := identity.user.principalName
  permissions := sortedTexts (identity.permissions.map Permission.name)
  correlationId := correlationId

section ReadBack
variable {uuid : String → Option Uuid} {identity : ResolvedIdentity}

theorem profileUuid_str (huuid : ∀ u, uuid (Uuid.str u) = some u) {o : Json.Object} {name : String} {u : Uuid}
    (h : o.get name = some (.str (Uuid.str u))) : profileUuid uuid o name = .ok u := by
  simp only [profileUuid, h, huuid]

theorem profileTextOrNone_textOrNull {o : Json.Object} {name : String} {text : Option String}
    (h : o.get name = some (Json.textOrNull text)) : profileTextOrNone o name = .ok text := by
  unfold profileTextOrNone
  rw [h]
  cases text <;> rfl

theorem mapM_itemText (texts : List String) : (texts.map Json.str).mapM itemText = .ok texts := by
  induction texts with
  | nil => rfl
  | cons text rest ih =>
    rw [List.map_cons, List.mapM_cons, ih]
    rfl

theorem profileTexts_arr {o : Json.Object} {name : String} {texts : List String}
    (h : o.get name = some (.arr (texts.map .str))) : profileTexts o name = .ok texts := by
  unfold profileTexts
  rw [h]
  exact mapM_itemText texts

theorem getActor_profileResponse (huuid : ∀ u, uuid (Uuid.str u) = some u) (identity : ResolvedIdentity)
    (correlationId : Uuid) :
    getActor uuid (profileResponse identity).json correlationId = .ok (actorOf identity correlationId) := by
  have htenant : profileUuid uuid (profileResponse identity).json "tenant_id" = .ok identity.tenant.id :=
    profileUuid_str huuid rfl
  have hentra : profileUuid uuid (profileResponse identity).json "entra_tenant_id" =
      .ok identity.tenant.entraTenantId := profileUuid_str huuid rfl
  have huser : profileUuid uuid (profileResponse identity).json "user_id" = .ok identity.user.id :=
    profileUuid_str huuid rfl
  have hobject : profileUuid uuid (profileResponse identity).json "entra_object_id" =
      .ok identity.user.entraObjectId := profileUuid_str huuid rfl
  have hname : profileText (profileResponse identity).json "display_name" = .ok identity.user.displayName := rfl
  have hprincipal : profileTextOrNone (profileResponse identity).json "principal_name" =
      .ok identity.user.principalName := profileTextOrNone_textOrNull rfl
  have hpermissions : profileTexts (profileResponse identity).json "permissions" =
      .ok (sortedTexts (identity.permissions.map Permission.name)) := profileTexts_arr rfl
  unfold getActor
  rw [htenant, hentra, huser, hobject, hname, hprincipal, hpermissions]
  rfl

/-- **A service takes a request to be from whom the identity service does**, and lets it in
when one of their permissions has the name it wants. -/
theorem requireActor_eq_ok_iff (huuid : ∀ u, uuid (Uuid.str u) = some u) {w : World} {host : Host}
    {sessionCookie credentials : Option String} {s s' : Store} {answer : Except Rejection Json.Object}
    (hprofile : profile w host sessionCookie credentials s = (answer, s')) {permission : String}
    {correlationId : Uuid} {actor : Actor} : requireActor uuid permission correlationId answer = .ok actor ↔
      ∃ identity, getIdentity w host sessionCookie credentials s = .ok (identity, s') ∧
        actor = actorOf identity correlationId ∧ ∃ p ∈ identity.permissions, p.name = permission := by
  unfold profile at hprofile
  cases hidentity : getIdentity w host sessionCookie credentials s with
  | error rejection =>
    rw [hidentity] at hprofile
    cases hprofile
    refine iff_of_false (fun h => ?_) (by simp)
    obtain ⟨body, hbody, -⟩ := bind_eq_ok.mp h
    unfold resolveProfile at hbody
    dsimp only at hbody
    split_ifs at hbody
  | ok result =>
    obtain ⟨identity, s''⟩ := result
    rw [hidentity] at hprofile
    cases hprofile
    have hactor : requireActor uuid permission correlationId (.ok (profileResponse identity).json) =
        requirePermission permission (actorOf identity correlationId) := by
      show Except.bind (getActor uuid (profileResponse identity).json correlationId) _ = _
      rw [getActor_profileResponse huuid]
      rfl
    have hmem : permission ∈ (actorOf identity correlationId).permissions ↔
        ∃ p ∈ identity.permissions, p.name = permission := by
      show permission ∈ (identity.permissions.map Permission.name).insertionSort (· ≤ ·) ↔ _
      rw [(List.perm_insertionSort _ _).mem_iff, List.mem_map]
    rw [hactor]
    unfold requirePermission
    split_ifs with hpermission
    · refine ⟨fun h => ⟨identity, rfl, (Except.ok.inj h).symm, hmem.mp hpermission⟩, ?_⟩
      rintro ⟨identity', heq, rfl, -⟩
      cases heq
      rfl
    · refine iff_of_false (by simp) ?_
      rintro ⟨identity', heq, -, hsome⟩
      cases heq
      exact hpermission (hmem.mpr hsome)

end ReadBack
end Sentinel.Identity
