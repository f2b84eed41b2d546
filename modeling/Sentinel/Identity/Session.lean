import Sentinel.Identity.Main
import Sentinel.Library.Fallible

/-! `SessionCodec`: the signed token a session cookie holds.

PyJWT and `UUID` are taken as they come (`Tokens`): a token that was signed with the key
gives its payload back while the payload's times and names pass. -/
namespace Sentinel.Identity
open Library Library.Fallible Common

/-- The settings sessions depend on. -/
structure SessionSettings where
  signingKey : Option String
  ttlSeconds : Int

/-- What `jwt.decode` checks besides the signature. -/
structure DecodeOptions where
  issuer : String
  audience : String
  required : List String

/-- A second of the clock, which counts microseconds since 1970. -/
def second : Int := 1000000

/-- `int(time.time())`. -/
def unixSeconds (now : Nat) : Int := now / second

/-- The claim is a number with `p`, if it is there. -/
def intClaim (payload : Json.Object) (name : String) (p : Int → Bool) : Bool :=
  match payload.get name with
  | some (.int i) => p i
  | some _ => false
  | none => true

def textClaim (payload : Json.Object) (name text : String) : Bool :=
  match payload.get name with
  | some (.str s) => s = text
  | _ => false

/-- The payload has the claims required, has begun, has not run out, and is for us. -/
def DecodeOptions.passes (o : DecodeOptions) (now : Nat) (payload : Json.Object) : Bool :=
  (o.required.all fun name => (payload.get name).isSome) &&
    intClaim payload "iat" (fun i => i * second ≤ now) && intClaim payload "nbf" (fun i => i * second ≤ now) &&
    intClaim payload "exp" (fun i => now < i * second) &&
    textClaim payload "iss" o.issuer && textClaim payload "aud" o.audience

/-- Integers for the times, and texts for the rest: JSON gives both back as they are. -/
def Plain (payload : Json.Object) : Prop :=
  ∀ m ∈ payload.members, if m.1 ∈ ["iat", "nbf", "exp"] then ∃ i, m.2 = .int i else ∃ s, m.2 = .str s

/-- `jwt` and `UUID`. -/
structure Tokens where
  encode : Json.Object → String → Except Rejection String
  decode : DecodeOptions → Nat → String → String → Option Json.Object
  uuid : String → Option Uuid
  decode_encode : ∀ payload key token options now, Plain payload → encode payload key = .ok token →
    decode options now token key = if options.passes now payload then some payload else none
  encode_ne_empty : ∀ payload key, encode payload key ≠ .ok ""
  uuid_str : ∀ u, uuid (Uuid.str u) = some u

section Codec
variable (settings : SessionSettings) (tokens : Tokens)

def signingKey : Except Rejection String :=
  match present settings.signingKey with
  | some key => .ok key
  | none => .error (.exception "SENTINEL_SESSION_SIGNING_KEY is required")

def sessionPayload (claims : SessionClaims) (now : Nat) : Json.Object where
  members := [("sub", .str (Uuid.str claims.userId)), ("tenant_id", .str (Uuid.str claims.tenantId)),
    ("tid", .str (Uuid.str claims.entraTenantId)), ("oid", .str (Uuid.str claims.entraObjectId)),
    ("iat", .int (unixSeconds now)), ("nbf", .int (unixSeconds now)),
    ("exp", .int (unixSeconds now + settings.ttlSeconds)), ("iss", .str "sentinel-identity"),
    ("aud", .str "sentinel-services")]
  wellFormed := by simp [Json.WellFormed]

/-- `encode`, at an instant. -/
def encodeSession (now : Nat) (claims : SessionClaims) : Except Rejection String := do
  tokens.encode (sessionPayload settings claims now) (← signingKey settings)

def invalidSession : Rejection := .http 401 "Invalid or expired Sentinel session"

/-- `UUID(payload[name])`. -/
def uuidClaim (payload : Json.Object) (name : String) : Except Rejection Uuid :=
  match payload.get name with
  | none => .error invalidSession
  | some (.str text) =>
    match tokens.uuid text with
    | some u => .ok u
    | none => .error invalidSession
  | some _ => .error (.exception "UUID takes a text")

def sessionOptions : DecodeOptions where
  issuer := "sentinel-identity"
  audience := "sentinel-services"
  required := ["sub", "tenant_id", "tid", "oid", "exp", "iat", "nbf"]

/-- `decode`, at an instant. -/
def decodeSession (now : Nat) (token : String) : Except Rejection SessionClaims := do
  let key ← signingKey settings
  match tokens.decode sessionOptions now token key with
  | none => .error invalidSession
  | some payload => do
    let userId ← uuidClaim tokens payload "sub"
    let tenantId ← uuidClaim tokens payload "tenant_id"
    let entraTenantId ← uuidClaim tokens payload "tid"
    let entraObjectId ← uuidClaim tokens payload "oid"
    return ⟨userId, tenantId, entraTenantId, entraObjectId⟩

end Codec

/-! ### A token read back -/

section Codec
variable {settings : SessionSettings} {tokens : Tokens}

/-- The seconds in which a session made at `now` is good: whole ones, from the second it was
made in. -/
def Good (settings : SessionSettings) (now later : Nat) : Prop :=
  unixSeconds now * second ≤ later ∧ later < (unixSeconds now + settings.ttlSeconds) * second

instance (now later : Nat) : Decidable (Good settings now later) := inferInstanceAs (Decidable (_ ∧ _))

theorem plain_sessionPayload (claims : SessionClaims) (now : Nat) : Plain (sessionPayload settings claims now) := by
  simp [Plain, sessionPayload]

theorem passes_sessionPayload (claims : SessionClaims) (now later : Nat) :
    sessionOptions.passes later (sessionPayload settings claims now) = decide (Good settings now later) := by
  simp [DecodeOptions.passes, sessionOptions, sessionPayload, intClaim, textClaim, Json.Object.get, List.lookup, Good]
  exact (Bool.decide_and _ _).symm

theorem uuidClaim_str {payload : Json.Object} {name : String} {u : Uuid}
    (h : payload.get name = some (.str (Uuid.str u))) : uuidClaim tokens payload name = .ok u := by
  simp only [uuidClaim, h, tokens.uuid_str]

/-- A session token gives back its claims while it is good, and nothing after. -/
theorem decodeSession_encodeSession {claims : SessionClaims} {now : Nat} {token : String}
    (h : encodeSession settings tokens now claims = .ok token) (later : Nat) :
    decodeSession settings tokens later token =
      if Good settings now later then .ok claims else .error invalidSession := by
  obtain ⟨key, hkey, hencode⟩ := bind_eq_ok.mp h
  have hdecode := tokens.decode_encode _ _ _ sessionOptions later (plain_sessionPayload claims now) hencode
  rw [passes_sessionPayload] at hdecode
  unfold decodeSession
  rw [hkey]
  by_cases hgood : Good settings now later
  · have hsub : uuidClaim tokens (sessionPayload settings claims now) "sub" = .ok claims.userId := uuidClaim_str rfl
    have htenant : uuidClaim tokens (sessionPayload settings claims now) "tenant_id" = .ok claims.tenantId :=
      uuidClaim_str rfl
    have htid : uuidClaim tokens (sessionPayload settings claims now) "tid" = .ok claims.entraTenantId :=
      uuidClaim_str rfl
    have hoid : uuidClaim tokens (sessionPayload settings claims now) "oid" = .ok claims.entraObjectId :=
      uuidClaim_str rfl
    simp [bind, Except.bind, hdecode, hgood, hsub, htenant, htid, hoid, pure, Except.pure]
  · simp [bind, Except.bind, hdecode, hgood]

end Codec
end Sentinel.Identity
