import Sentinel.Identity.Bootstrap
import Sentinel.Library.Fallible
import Sentinel.Library.ReadCommitted

/-! The transactions of the identity service side by side, at READ COMMITTED.

Three of them write: the callback of a login, a request with a bearer token, and a request
for a delegated token. Each is taken query by query, in the order of the source. The session
keeps in memory what its queries returned; what it assigns is here written at the commit. An
`UPDATE` sends the values that changed in memory, an `INSERT` fails on a key that is there
by then. The queries that only make up the answer are left out.

The provider puts a fresh refresh token in each answer, `token n` in the one it gives at
time `n`. The ledger is the database together with a log of what was committed: who logged
in, and which token was stored for whom. -/
namespace Sentinel.Identity.Transactions
open Library Library.Table

/-- The tokens of the provider, and the cipher under which they are stored. -/
structure Provider where
  token : Nat → String
  /-- `TokenCipher.encrypt`; two texts of one token differ. -/
  encrypt : Nat → String → String
  decrypt : String → Option String

/-- Who signs in, and what the request draws from its machine. -/
structure Login where
  host : Host
  principal : TokenPrincipal

/-! ### The callback -/

structure AtTenant where
  tenant : Upsert Tenant
  displayName : String

structure AtCount extends AtTenant where
  existingCount : Nat

structure AtUser extends AtCount where
  user : Upsert User

structure AtRole extends AtUser where
  role : Upsert Role

structure AtPermissions extends AtRole where
  rolePermissions : List RolePermission

structure AtUserRole extends AtPermissions where
  userRole : Option UserRole

structure AtConnection extends AtUserRole where
  connection : Upsert OAuthConnection

/-- How far `onboard_oauth_user` is. -/
inductive Onboarding where
  | begun
  | tenant (c : AtTenant)
  | counted (c : AtCount)
  | user (c : AtUser)
  | role (c : AtRole)
  | permissions (c : AtPermissions)
  | assigned (c : AtUserRole)
  | connected (c : AtConnection)

/-- `created or existing_count == 0`. -/
def AtCount.administrator (c : AtCount) : Bool := c.tenant.isFresh || c.existingCount = 0

section Onboard
variable (login : Login)

def Login.scopeKey : String :=
  identityScopeKey login.principal.entraTenantId login.principal.entraObjectId

/-- The name `onboard_oauth_user` asks for. -/
def Login.workspaceName : Option String :=
  if isPersonalAccount login.principal.entraTenantId then some login.principal.displayName else none

def newTenant : Tenant where
  id := login.host.tenantId
  entraTenantId := login.principal.entraTenantId
  identityScopeKey := login.scopeKey
  accountType := if isPersonalAccount login.principal.entraTenantId then .personal else .organization
  displayName := orText login.workspaceName (Uuid.str login.principal.entraTenantId)
  status := .active
  consentedAt := some login.host.consentedAt

def newUser (tenantId : Uuid) : User where
  id := login.host.userId
  tenantId := tenantId
  entraObjectId := login.principal.entraObjectId
  principalName := login.principal.principalName
  displayName := login.principal.displayName
  email := login.principal.principalName
  isActive := true
  lastLoginAt := none
  version := 1

def newRole (tenantId : Uuid) (administrator : Bool) : Role where
  id := login.host.roleId
  tenantId := tenantId
  name := (onboardingRole administrator).1
  description := (onboardingRole administrator).2.1
  isSystem := true

def newConnection (tenantId userId : Uuid) (tokenAuthority encrypted : String) : OAuthConnection where
  id := login.host.connectionId
  tenantId := tenantId
  userId := userId
  provider := "microsoft"
  tokenAuthority := tokenAuthority
  scopes := " ".intercalate oauthScopes
  encryptedRefreshToken := encrypted
  lastRefreshedAt := none

def readTenant (s : Store) : AtTenant where
  tenant := lookup (getTenantByScopeKey login.scopeKey s) (newTenant login)
  displayName := orText login.workspaceName
    (lookup (getTenantByScopeKey login.scopeKey s) (newTenant login)).row.displayName

def readUser (tenantId : Uuid) (s : Store) : Upsert User :=
  lookup (getUser tenantId login.principal.entraObjectId s) (newUser login tenantId)

def readRole (tenantId : Uuid) (administrator : Bool) (s : Store) : Upsert Role :=
  lookup (s.roles.find? fun r => r.tenantId = tenantId ∧ r.name = (onboardingRole administrator).1)
    (newRole login tenantId administrator)

/-- `grant_permissions`: the rows that are missing. -/
def missingPermissions (roleId : Uuid) (permissionNames : List String) (s : Store) : List RolePermission :=
  ((s.permissions.filter fun p => p.name ∈ permissionNames).map fun p => ⟨roleId, p.id⟩).filter
    fun g => g ∉ s.rolePermissions

/-- `assign_role`: the row, if it is missing. -/
def missingUserRole (tenantId userId roleId : Uuid) (s : Store) : Option UserRole :=
  if (⟨tenantId, userId, roleId, "tenant", "*", none⟩ : UserRole).key ∈ s.userRoles.map UserRole.key then none
  else some ⟨tenantId, userId, roleId, "tenant", "*", none⟩

/-- The next query of `onboard_oauth_user`. -/
def onboard (tokenAuthority encrypted : String) (s : Store) : Onboarding → Option Onboarding
  | .begun => some (.tenant (readTenant login s))
  | .tenant c => some (.counted ⟨c, countUsers c.tenant.row.id s⟩)
  | .counted c => some (.user ⟨c, readUser login c.tenant.row.id s⟩)
  | .user c => some (.role ⟨c, readRole login c.tenant.row.id c.administrator s⟩)
  | .role c => some (.permissions
      ⟨c, missingPermissions c.role.row.id (onboardingRole c.administrator).2.2 s⟩)
  | .permissions c => some (.assigned
      ⟨c, missingUserRole c.tenant.row.id c.user.row.id c.role.row.id s⟩)
  | .assigned c => some (.connected ⟨c, lookup (getOAuthConnection c.tenant.row.id c.user.row.id s)
      (newConnection login c.tenant.row.id c.user.row.id tokenAuthority encrypted)⟩)
  | .connected _ => none

end Onboard

/-! ### What is written -/

/-- The update of a tenant that was given a name. -/
def renamed (loaded : Tenant) (displayName : String) (t : Tenant) : Tenant :=
  if t.id = loaded.id then {t with displayName := assign loaded.displayName displayName t.displayName} else t

/-- The update of a user that signed in. -/
def synced (login : Login) (loaded : User) (u : User) : User :=
  if u.id = loaded.id then
    {u with
      displayName := assign loaded.displayName login.principal.displayName u.displayName
      principalName := assign loaded.principalName login.principal.principalName u.principalName
      email := assign loaded.email login.principal.principalName u.email
      lastLoginAt := assign loaded.lastLoginAt (some login.host.lastLoginAt) u.lastLoginAt
      version := loaded.version + 1}
  else u

/-- The update of a connection that was given a token; the cipher gives no text twice, so the
new one is sent. -/
def reconnected (host : Host) (loaded : OAuthConnection) (tokenAuthority encrypted : String)
    (c : OAuthConnection) : OAuthConnection :=
  if c.id = loaded.id then
    {c with
      scopes := assign loaded.scopes (" ".intercalate oauthScopes) c.scopes
      tokenAuthority := assign loaded.tokenAuthority tokenAuthority c.tokenAuthority
      encryptedRefreshToken := encrypted
      lastRefreshedAt := assign loaded.lastRefreshedAt (some host.lastRefreshedAt) c.lastRefreshedAt}
  else c

theorem renamed_id (loaded : Tenant) (displayName : String) (t : Tenant) :
    (renamed loaded displayName t).id = t.id := by
  unfold renamed; split_ifs <;> rfl

theorem renamed_identityScopeKey (loaded : Tenant) (displayName : String) (t : Tenant) :
    (renamed loaded displayName t).identityScopeKey = t.identityScopeKey := by
  unfold renamed; split_ifs <;> rfl

theorem synced_id (login : Login) (loaded u : User) : (synced login loaded u).id = u.id := by
  unfold synced; split_ifs <;> rfl

theorem synced_key (login : Login) (loaded u : User) : (synced login loaded u).key = u.key := by
  unfold synced; split_ifs <;> rfl

theorem reconnected_id (host : Host) (loaded : OAuthConnection) (tokenAuthority encrypted : String)
    (c : OAuthConnection) : (reconnected host loaded tokenAuthority encrypted c).id = c.id := by
  unfold reconnected; split_ifs <;> rfl

theorem reconnected_key (host : Host) (loaded : OAuthConnection) (tokenAuthority encrypted : String)
    (c : OAuthConnection) : (reconnected host loaded tokenAuthority encrypted c).key = c.key := by
  unfold reconnected; split_ifs <;> rfl

def writeTenant (c : AtTenant) (s : Store) : Except Failure Store :=
  match c.tenant with
  | .fresh t => s.insertTenant t
  | .found t =>
    if !Json.storableText c.displayName then .error .refused
    else if !Store.nonempty c.displayName then .error .tenantsDisplayNameNonempty
    else .ok (s.updateTenants (renamed t c.displayName) (renamed_id t c.displayName)
      (renamed_identityScopeKey t c.displayName))

def writeUser (login : Login) (u : Upsert User) (s : Store) : Except Failure Store :=
  match u with
  | .fresh u => s.insertUser u
  | .found u =>
    if Store.takesUser login.principal.displayName login.principal.principalName then
      .ok (s.updateUsers (synced login u) (synced_id login u) (synced_key login u))
    else .error .refused

def writeRole (r : Upsert Role) (s : Store) : Except Failure Store :=
  match r with
  | .fresh r => s.insertRole r
  | .found _ => .ok s

def writeRolePermissions : List RolePermission → Store → Except Failure Store
  | [], s => .ok s
  | g :: rest, s => (s.insertRolePermission g).bind (writeRolePermissions rest)

def writeUserRole (g : Option UserRole) (s : Store) : Except Failure Store :=
  match g with
  | some g => s.insertUserRole g
  | none => .ok s

def writeConnection (host : Host) (c : Upsert OAuthConnection) (tokenAuthority encrypted : String) (s : Store) :
    Except Failure Store :=
  match c with
  | .fresh c => s.insertConnection c
  | .found c =>
    if [tokenAuthority, encrypted].all Json.storableText then
      .ok (s.updateConnections (reconnected host c tokenAuthority encrypted)
        (reconnected_id host c tokenAuthority encrypted) (reconnected_key host c tokenAuthority encrypted))
    else .error .refused

/-- All a callback writes. -/
def writeOnboarding (login : Login) (tokenAuthority encrypted : String) (c : AtConnection) (s : Store) :
    Except Failure Store := do
  let s ← writeTenant c.toAtTenant s
  let s ← writeUser login c.user s
  let s ← writeRole c.role s
  let s ← writeRolePermissions c.rolePermissions s
  let s ← writeUserRole c.userRole s
  writeConnection login.host c.connection tokenAuthority encrypted s

/-! ### The other two -/

/-- How far `resolve_and_sync` is. -/
inductive Resolving where
  | begun
  | tenant (t : Tenant)
  | user (u : Upsert User)

/-- The next query of `resolve_and_sync`; the checks reject the request. -/
def resolve (login : Login) (s : Store) : Resolving → Option Resolving
  | .begun =>
    match getTenantByScopeKey login.scopeKey s with
    | none => none
    | some t => if t.status = .active then some (.tenant t) else none
  | .tenant t =>
    let u := readUser login t.id s
    if u.row.isActive then some (.user u) else none
  | .user _ => none

/-- How far `delegated_azure_token` is. -/
inductive Delegating where
  | begun
  | tenant
  | user
  | connection (c : OAuthConnection)
  /-- The provider answered, with a new refresh token if it is `some`. -/
  | answered (c : OAuthConnection) (issued : Option Nat)

/-- The next query of `delegated_azure_token`, or its call to the provider at time `n`. -/
def delegate (tenantId userId : Uuid) (rotates : Bool) (n : Nat) (s : Store) : Delegating → Option Delegating
  | .begun => (getTenantById tenantId s).map fun _ => .tenant
  | .tenant =>
    match getUserById tenantId userId s with
    | none => none
    | some u => if u.isActive then some .user else none
  | .user => (getOAuthConnection tenantId userId s).map .connection
  | .connection c => some (.answered c (if rotates then some n else none))
  | .answered _ _ => none

/-! ### The protocol -/

/-- The database, and the log of what was committed. -/
structure Ledger where
  store : Store
  /-- The tenant and the user of each login. -/
  logins : List (Uuid × Uuid)
  /-- Each token stored, with the user it is of. -/
  tokens : List ((Uuid × Uuid) × Nat)

inductive Start where
  | callback (login : Login) (tokenAuthority : String)
  | bearer (login : Login)
  | token (host : Host) (tenantId userId : Uuid) (rotates : Bool)

inductive Txn where
  /-- The provider has exchanged the code, with the token of that time. -/
  | callback (login : Login) (tokenAuthority : String) (issued : Nat) (stage : Onboarding)
  | bearer (login : Login) (stage : Resolving)
  | token (host : Host) (tenantId userId : Uuid) (rotates : Bool) (stage : Delegating)

variable (p : Provider)

def Provider.encrypted (n : Nat) : String := p.encrypt n (p.token n)

def statement (n : Nat) (s : Store) : Txn → Option Txn
  | .callback login tokenAuthority issued stage =>
    (onboard login tokenAuthority (p.encrypted issued) s stage).map (.callback login tokenAuthority issued)
  | .bearer login stage => (resolve login s stage).map (.bearer login)
  | .token host tenantId userId rotates stage =>
    (delegate tenantId userId rotates n s stage).map (.token host tenantId userId rotates)

def commit (l : Ledger) : Txn → Except Failure Ledger
  | .callback login tokenAuthority issued (.connected c) =>
    (writeOnboarding login tokenAuthority (p.encrypted issued) c l.store).map fun s =>
      ⟨s, l.logins ++ [(c.tenant.row.id, c.user.row.id)],
        l.tokens ++ [((c.tenant.row.id, c.user.row.id), issued)]⟩
  | .bearer login (.user u) => (writeUser login u l.store).map fun s => {l with store := s}
  | .token host tenantId userId _ (.answered c (some issued)) =>
    (writeConnection host (.found c) c.tokenAuthority (p.encrypted issued) l.store).map fun s =>
      {l with store := s, tokens := l.tokens ++ [((tenantId, userId), issued)]}
  | .token _ _ _ _ (.answered _ none) => .ok l
  | _ => .error .refused

def protocol : ReadCommitted.Protocol Ledger Txn Start Unit where
  begin := fun n r =>
    match r with
    | .callback login tokenAuthority => .callback login tokenAuthority n .begun
    | .bearer login => .bearer login .begun
    | .token host tenantId userId rotates => .token host tenantId userId rotates .begun
  statement := fun n _ l t => statement p n l.store t
  commit := fun l t => (commit p l t).toOption

/-- What a commit can be. -/
inductive Commits (l : Ledger) : Txn → Ledger → Prop
  | callback {login : Login} {tokenAuthority : String} {issued : Nat} {c : AtConnection} {s : Store}
      (h : writeOnboarding login tokenAuthority (p.encrypted issued) c l.store = .ok s) :
      Commits l (.callback login tokenAuthority issued (.connected c))
        ⟨s, l.logins ++ [(c.tenant.row.id, c.user.row.id)],
          l.tokens ++ [((c.tenant.row.id, c.user.row.id), issued)]⟩
  | bearer {login : Login} {u : Upsert User} {s : Store} (h : writeUser login u l.store = .ok s) :
      Commits l (.bearer login (.user u)) {l with store := s}
  | token {host : Host} {tenantId userId : Uuid} {rotates : Bool} {c : OAuthConnection} {issued : Nat} {s : Store}
      (h : writeConnection host (.found c) c.tokenAuthority (p.encrypted issued) l.store = .ok s) :
      Commits l (.token host tenantId userId rotates (.answered c (some issued)))
        {l with store := s, tokens := l.tokens ++ [((tenantId, userId), issued)]}
  | unrotated {host : Host} {tenantId userId : Uuid} {rotates : Bool} {c : OAuthConnection} :
      Commits l (.token host tenantId userId rotates (.answered c none)) l

variable {p}

theorem commits_of_commit {l l' : Ledger} {t : Txn} (h : (protocol p).commit l t = some l') :
    Commits p l t l' := by
  have hok : commit p l t = .ok l' := Fallible.toOption_eq_some.mp h
  unfold commit at hok
  split at hok
  · obtain ⟨s, hw, rfl⟩ := Fallible.map_eq_ok.mp hok
    exact .callback hw
  · obtain ⟨s, hw, rfl⟩ := Fallible.map_eq_ok.mp hok
    exact .bearer hw
  · obtain ⟨s, hw, rfl⟩ := Fallible.map_eq_ok.mp hok
    exact .token hw
  · cases hok
    exact .unrotated
  · cases hok

/-! ### Sample logins -/

def sampleProvider : Provider where
  token := fun n => "refresh-" ++ toString n
  encrypt := fun n token => "fernet-" ++ toString n ++ ":" ++ token
  decrypt := fun _ => none

/-- An account of the organization, with ids of its own for the rows it may add. -/
def sampleLogin (oid : Uuid) : Login where
  host := {sampleHost with
    tenantId := 10 * oid + 1, userId := 10 * oid + 2, roleId := 10 * oid + 3, connectionId := 10 * oid + 4}
  principal := {samplePrincipal with entraObjectId := oid}

/-- The queries of a callback. -/
def queries (i : Nat) : List (ReadCommitted.Action Start Unit) := List.replicate 7 (.statement i ())

end Sentinel.Identity.Transactions
