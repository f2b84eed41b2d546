import Sentinel.Common.Python
import Sentinel.Identity.Service

/-! The requests of the identity service: a profile read with a session cookie or a bearer
token, the OAuth callback, and a worker asking for a delegated Azure token.

Microsoft, JWTs and Fernet are taken as they come (`World`). -/
namespace Sentinel.Identity
open Library Common

structure SessionClaims where
  userId : Uuid
  tenantId : Uuid
  entraTenantId : Uuid
  entraObjectId : Uuid

/-- What surrounds a request: the settings it reads, and what is not decided here. -/
structure World where
  py : Python
  internalApiToken : Option String
  microsoftClientId : Option String
  exchangeCode : String → String → Option String → Except Rejection Json.Object
  refresh : String → String → Except Rejection Json.Object
  validate : String → Option String → Except Rejection TokenPrincipal
  encrypt : String → Except Rejection String
  decrypt : String → Except Rejection String
  encodeSession : SessionClaims → Except Rejection String
  decodeSession : String → Except Rejection SessionClaims

inductive Answer where
  | rejected (rejection : Rejection)
  | identified (identity : ResolvedIdentity)
  | signedIn (sessionCookie : String)
  | azureToken (accessToken : String) (expiresIn : Int)

/-- `MicrosoftOAuthService.scopes`. -/
def oauthScopes : List String :=
  ["openid", "profile", "email", "offline_access", "https://management.azure.com/user_impersonation"]

/-- A text that is there and not empty. -/
def present (value : Option String) : Option String := value.filter (· ≠ "")

/-- `isinstance(value, str) and value`. -/
def textOf : Option Json → Option String
  | some (.str s) => present (some s)
  | _ => none

/-- `secrets.compare_digest` of two texts. -/
def compareDigest (a b : String) : Except Rejection Bool :=
  if (a.toList ++ b.toList).all fun c => c.toNat < 128 then .ok (a = b)
  else .error (.exception "comparing strings with non-ASCII characters is not supported")

structure CallbackRequest where
  code : String
  state : String
  stateCookie : Option String
  verifierCookie : Option String
  tenantCookie : Option String

structure TokenRequest where
  tenantId : Uuid
  userId : Uuid
  internalToken : Option String

inductive Request where
  | profile (sessionCookie credentials : Option String)
  | callback (r : CallbackRequest)
  | token (r : TokenRequest)

section Requests
variable (w : World) (host : Host)

/-- `get_identity`. -/
def getIdentity (sessionCookie credentials : Option String) (s : Store) :
    Except Rejection (ResolvedIdentity × Store) :=
  match present sessionCookie, credentials with
  | some token, _ => do
    let claims ← w.decodeSession token
    return (← resolveSession host claims.tenantId claims.userId s, s)
  | none, some credentials => do
    let principal ← w.validate credentials none
    resolveAndSync host principal s
  | none, none => .error (.http 401 "Not authenticated")

/-- `callback` up to its transaction: who signs in, and the refresh token encrypted. -/
def authorize (r : CallbackRequest) : Except Rejection (TokenPrincipal × String) :=
  match present r.stateCookie with
  | none => .error (.http 401 "Invalid OAuth state")
  | some expected => do
    if !(← compareDigest expected r.state) then .error (.http 401 "Invalid OAuth state")
    else match present r.verifierCookie with
      | none => .error (.http 401 "Invalid OAuth state")
      | some verifier => do
        let tokens ← w.exchangeCode r.code verifier r.tenantCookie
        match textOf (tokens.get "id_token"), textOf (tokens.get "access_token"),
            textOf (tokens.get "refresh_token") with
        | some idToken, some _, some refreshToken => do
          let principal ← w.validate idToken w.microsoftClientId
          if (present r.tenantCookie).any (· ≠ Uuid.str principal.entraTenantId) then
            .error (.http 401 "Authenticated tenant does not match request")
          else return (principal, ← w.encrypt refreshToken)
        | _, _, _ => .error (.http 401 "Microsoft did not return required tokens")

/-- The transaction of `callback`. -/
def callbackTransaction (r : CallbackRequest) (s : Store) : Except Rejection (ResolvedIdentity × Store) := do
  let (principal, encryptedRefreshToken) ← authorize w r
  onboardOAuthUser host principal none encryptedRefreshToken oauthScopes
    (refreshAuthority principal.entraTenantId r.tenantCookie) s

def sessionClaims (identity : ResolvedIdentity) : SessionClaims where
  userId := identity.user.id
  tenantId := identity.tenant.id
  entraTenantId := identity.tenant.entraTenantId
  entraObjectId := identity.user.entraObjectId

/-- `callback`: the cookie is made after the transaction. -/
def callback (r : CallbackRequest) (s : Store) : Answer × Store :=
  match callbackTransaction w host r s with
  | .error rejection => (.rejected rejection, s)
  | .ok (identity, s') =>
    match w.encodeSession (sessionClaims identity) with
    | .error rejection => (.rejected rejection, s')
    | .ok token => (.signedIn token, s')

/-- The check of `X-Internal-Token`. -/
def internalCredential (r : TokenRequest) : Except Rejection Unit :=
  match present w.internalApiToken with
  | none => .error (.http 401 "Invalid internal credential")
  | some expected => do
    if !(← compareDigest (r.internalToken.getD "") expected) then
      .error (.http 401 "Invalid internal credential")
    else return ()

/-- The rows `delegated_azure_token` needs. -/
def delegatedConnection (r : TokenRequest) (s : Store) : Except Rejection OAuthConnection :=
  match getTenantById r.tenantId s, getUserById r.tenantId r.userId s,
      getOAuthConnection r.tenantId r.userId s with
  | some _, some user, some connection =>
    if user.isActive then .ok connection
    else .error (.http 409 "User has no active delegated Microsoft OAuth connection")
  | _, _, _ => .error (.http 409 "User has no active delegated Microsoft OAuth connection")

/-- Stores the refresh token the provider sent with the access token, if it sent one. -/
def rotate (r : TokenRequest) (connection : OAuthConnection) (tokens : Json.Object) (s : Store) :
    Except Rejection Store :=
  match textOf (tokens.get "refresh_token") with
  | none => .ok s
  | some rotated => do
    let encrypted ← w.encrypt rotated
    statement (upsertOAuthConnection host r.tenantId connection.userId encrypted oauthScopes
      connection.tokenAuthority s)

def delegatedAzureToken (r : TokenRequest) (s : Store) : Except Rejection (Answer × Store) := do
  internalCredential w r
  let connection ← delegatedConnection r s
  let refreshToken ← w.decrypt connection.encryptedRefreshToken
  let tokens ← w.refresh refreshToken connection.tokenAuthority
  match textOf (tokens.get "access_token") with
  | none => .error (.http 502 "Microsoft token refresh failed")
  | some accessToken => do
    let s ← rotate w host r connection tokens s
    match w.py.int ((tokens.get "expires_in").getD (.int 3600)) with
    | none => .error (.exception "expires_in is not an integer")
    | some expiresIn => return (.azureToken accessToken expiresIn, s)

/-- A transaction that ends with a rejection is rolled back. -/
def handle (r : Request) (s : Store) : Answer × Store :=
  match r with
  | .profile sessionCookie credentials =>
    match getIdentity w host sessionCookie credentials s with
    | .error rejection => (.rejected rejection, s)
    | .ok (identity, s) => (.identified identity, s)
  | .callback r => callback w host r s
  | .token r =>
    match delegatedAzureToken w host r s with
    | .error rejection => (.rejected rejection, s)
    | .ok (answer, s) => (answer, s)

end Requests
end Sentinel.Identity
