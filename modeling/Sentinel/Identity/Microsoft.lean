import Sentinel.Identity.Main
import Sentinel.Library.Base64
import Sentinel.Library.Fallible
import Sentinel.Library.FormUrl
import Sentinel.Library.Sha256

/-! `MicrosoftOAuthService`: the URL a login sends the browser to, and the requests to
Microsoft's token endpoint. The endpoint is taken as it comes. -/
namespace Sentinel.Identity
open Library

structure OAuthSettings where
  clientId : Option String
  clientSecret : Option String
  redirectUri : String
  authorityHost : String

/-- An answer of the token endpoint: its status, and its JSON. -/
structure Reply where
  status : Nat
  body : Json.Object

/-- `text.rstrip(char)`. -/
def rstrip (c : Char) (text : String) : String := String.ofList (text.toList.rdropWhile (· = c))

section Service
variable (settings : OAuthSettings)

def requiredClientId : Except Rejection String :=
  match present settings.clientId with
  | some id => .ok id
  | none => .error (.exception "SENTINEL_MICROSOFT_CLIENT_ID is required")

def requiredClientSecret : Except Rejection String :=
  match present settings.clientSecret with
  | some secret => .ok secret
  | none => .error (.exception "SENTINEL_MICROSOFT_CLIENT_SECRET is required")

/-- `authority`. -/
def authorityUrl (tenantId : Option String) : String :=
  rstrip '/' settings.authorityHost ++ "/" ++ orText tenantId "common"

def authorizationFields (clientId state challenge : String) : List (String × String) :=
  [("client_id", clientId), ("response_type", "code"), ("redirect_uri", settings.redirectUri),
    ("response_mode", "query"), ("scope", " ".intercalate oauthScopes), ("state", state),
    ("code_challenge", challenge), ("code_challenge_method", "S256"), ("prompt", "select_account")]

def authorizationUrl (state challenge : String) (tenantId : Option String) : Except Rejection String := do
  let clientId ← requiredClientId settings
  return authorityUrl settings tenantId ++ "/oauth2/v2.0/authorize?" ++
    FormUrl.urlencode (authorizationFields settings clientId state challenge)

section Requests
variable (post : String → List (String × String) → Except Rejection Reply)

/-- `_token_request`. -/
def tokenRequest (tenantId : Option String) (data : List (String × String)) : Except Rejection Json.Object := do
  let reply ← post (authorityUrl settings tenantId ++ "/oauth2/v2.0/token") data
  if 400 ≤ reply.status then .error (.provider reply.body.json) else return reply.body

def codeFields (clientId clientSecret code verifier : String) : List (String × String) :=
  [("client_id", clientId), ("client_secret", clientSecret), ("grant_type", "authorization_code"), ("code", code),
    ("redirect_uri", settings.redirectUri), ("code_verifier", verifier), ("scope", " ".intercalate oauthScopes)]

def exchangeCode (code verifier : String) (tenantId : Option String) : Except Rejection Json.Object := do
  let clientId ← requiredClientId settings
  let clientSecret ← requiredClientSecret settings
  tokenRequest settings post tenantId (codeFields settings clientId clientSecret code verifier)

def refreshFields (clientId clientSecret refreshToken : String) : List (String × String) :=
  [("client_id", clientId), ("client_secret", clientSecret), ("grant_type", "refresh_token"),
    ("refresh_token", refreshToken), ("scope", " ".intercalate oauthScopes)]

/-- `refresh`. -/
def refreshTokens (refreshToken tenantId : String) : Except Rejection Json.Object := do
  let clientId ← requiredClientId settings
  let clientSecret ← requiredClientSecret settings
  tokenRequest settings post (some tenantId) (refreshFields clientId clientSecret refreshToken)

end Requests
end Service

/-! ### PKCE -/

/-- `secrets.token_urlsafe`, of the bytes drawn. -/
def tokenUrlsafe (bytes : List Nat) : String := String.ofList ((Base64.encode bytes).rdropWhile (· = '='))

/-- The challenge of a verifier: its SHA-256 in Base64, without padding. -/
def pkceChallenge (verifier : String) : String := tokenUrlsafe (Sha256.digest verifier.toList)

example : pkceChallenge "dBjftJeZ4CVP-mB92K27uhbUJU1p1r_wW1gFWFOEjXk" =
    "E9Melhoa2OwvFrEMTJguCHaoeK1t8URWbuGJSstw-cM" := by decide +kernel

/-! ### What the other side reads -/

section Service
variable {settings : OAuthSettings} {post : String → List (String × String) → Except Rejection Reply}

/-- What an exchange asks, and that it got an answer. -/
theorem exchangeCode_eq_ok {code verifier : String} {tenantId : Option String} {tokens : Json.Object}
    (h : exchangeCode settings post code verifier tenantId = .ok tokens) :
    ∃ clientId clientSecret reply, post (authorityUrl settings tenantId ++ "/oauth2/v2.0/token")
        (codeFields settings clientId clientSecret code verifier) = .ok reply ∧
      reply.status < 400 ∧ reply.body = tokens := by
  obtain ⟨clientId, -, h⟩ := Fallible.bind_eq_ok.mp h
  obtain ⟨clientSecret, -, h⟩ := Fallible.bind_eq_ok.mp h
  obtain ⟨reply, hpost, h⟩ := Fallible.bind_eq_ok.mp h
  split_ifs at h with hstatus
  cases h
  exact ⟨clientId, clientSecret, reply, hpost, by omega, rfl⟩

end Service
end Sentinel.Identity
