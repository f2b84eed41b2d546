import Sentinel.Identity.Bootstrap
import Sentinel.Library.Binary64
import Sentinel.Library.Datetime
import Sentinel.Library.Fallible
import Sentinel.Library.Transition

/-! How long a worker goes on with somebody's Azure token.

A worker asks the identity service for a token of the user who requested the job, and keeps
the answer (`IdentityDelegatedCredential`) until five minutes before it runs out. The user
can be deactivated at any time. The identity service looks at the account once, before it
asks Microsoft for the token, and what a worker keeps does not notice.

The clock counts microseconds since 1970. Where a token comes from is kept beside it: the
check of the account, with the tables it was made on, and when the answer arrived. No step
reads these. -/
namespace Sentinel.Delegation
open Library Library.Transition Common
open Identity (Answer OAuthConnection Rejection Store TokenRequest World)

/-- The identity service found the account active. -/
structure Check where
  time : Nat
  tenantId : Uuid
  userId : Uuid
  store : Store

/-- An answer of the identity service. -/
structure Issue where
  check : Check
  accessToken : String
  expiresIn : Int

/-- `AccessToken`, and where it comes from. -/
structure AccessToken where
  token : String
  expiresOn : Int
  issue : Issue
  received : Nat

/-- How far the request for a token is. -/
inductive Phase where
  | idle
  | asking
  | checked (x : Check)
  /-- Microsoft is asked for a token. -/
  | connected (x : Check) (connection : OAuthConnection)
  | answered (x : Issue)

/-- The check that was passed. -/
def Phase.check : Phase → Option Check
  | .idle | .asking => none
  | .checked x => some x
  | .connected x _ => some x
  | .answered x => some x.check

/-- `IdentityDelegatedCredential`. -/
structure Credential where
  tenantId : Uuid
  userId : Uuid
  internalToken : Option String
  cached : Option AccessToken
  phase : Phase

def Credential.request (c : Credential) : TokenRequest := ⟨c.tenantId, c.userId, some (c.internalToken.getD "")⟩

/-- A token was returned to the Azure client. -/
structure Use where
  time : Nat
  tenantId : Uuid
  userId : Uuid
  held : AccessToken

structure State where
  now : Nat
  store : Store
  credentials : List Credential
  checks : List Check
  uses : List Use

inductive Action where
  | wait (duration : Nat)
  | identity (a : Identity.Action)
  /-- A worker takes up a job. -/
  | create (tenantId userId : Uuid) (internalToken : Option String)
  | getToken (i : Nat)
  | check (i : Nat) (w : World)
  | connect (i : Nat)
  | giveOut (i : Nat) (w : World) (host : Identity.Host)
  | receive (i : Nat)
  /-- The request fails on its way. -/
  | lose (i : Nat)
  | close (i : Nat)

/-! ### The clock -/

/-- `datetime.timestamp()`, a float. -/
def timestamp (t : Int) : ℚ := Binary64.round (t / Datetime.second)

/-- `self._cached.expires_on - now > 300`. -/
def usable (now : Nat) (held : AccessToken) : Bool := 300 < Binary64.round (held.expiresOn - timestamp now)

/-- 1970, on the clock of `datetime`. -/
def epoch : Nat := 719162 * Datetime.day

/-- `int((datetime.now(UTC) + timedelta(seconds=expires_in)).timestamp())`; it overflows outside
the years 1 to 9999. -/
def expiry (now : Nat) (expiresIn : Int) : Option Int :=
  let t := now + expiresIn * Datetime.second
  if -(epoch : Int) ≤ t ∧ t < Datetime.maximum - epoch then some (Binary64.truncate (timestamp t)) else none

/-- An expiry far ahead is rounded up. -/
example : expiry 999999 101767225600 = some 101767225601 := by decide +kernel

/-! ### The answer of the identity service -/

/-- `delegated_azure_token` up to the user it reads: the caller is a service, and the account is
there and active. -/
def checkAccount (w : World) (r : TokenRequest) (s : Store) : Except Rejection Unit := do
  Identity.internalCredential w r
  match Identity.getTenantById r.tenantId s, Identity.getUserById r.tenantId r.userId s with
  | some _, some user =>
    if user.isActive then return ()
    else .error (.http 409 "User has no active delegated Microsoft OAuth connection")
  | _, _ => .error (.http 409 "User has no active delegated Microsoft OAuth connection")

/-- `delegated_azure_token` from the call of the provider on, its tables those of the moment the
provider answers. -/
def answer (w : World) (host : Identity.Host) (r : TokenRequest) (connection : OAuthConnection) (s : Store) :
    Except Rejection (Answer × Store) := do
  let refreshToken ← w.decrypt connection.encryptedRefreshToken
  let tokens ← w.refresh refreshToken connection.tokenAuthority
  match Identity.textOf (tokens.get "access_token") with
  | none => .error (.http 502 "Microsoft token refresh failed")
  | some accessToken => do
    let s ← Identity.rotate w host r connection tokens s
    match w.py.int ((tokens.get "expires_in").getD (.int 3600)) with
    | none => .error (.exception "expires_in is not an integer")
    | some expiresIn => return (.azureToken accessToken expiresIn, s)

theorem delegatedAzureToken_eq (w : World) (host : Identity.Host) (r : TokenRequest) (s : Store) :
    Identity.delegatedAzureToken w host r s = (Identity.internalCredential w r).bind fun _ =>
      (Identity.delegatedConnection r s).bind fun connection => answer w host r connection s := rfl

/-- Where nothing happens between its parts, they are the request as a whole. -/
theorem delegatedAzureToken_eq_ok_iff {w : World} {host : Identity.Host} {r : TokenRequest} {s : Store}
    {x : Answer × Store} : Identity.delegatedAzureToken w host r s = .ok x ↔ checkAccount w r s = .ok () ∧
      ∃ connection, Identity.getOAuthConnection r.tenantId r.userId s = some connection ∧
        answer w host r connection s = .ok x := by
  rw [delegatedAzureToken_eq]
  unfold checkAccount Identity.delegatedConnection
  cases Identity.internalCredential w r with
  | error rejection => simp [bind, Except.bind]
  | ok =>
    cases Identity.getTenantById r.tenantId s with
    | none => simp [bind, Except.bind]
    | some tenant =>
      cases Identity.getUserById r.tenantId r.userId s with
      | none => simp [bind, Except.bind]
      | some user =>
        cases Identity.getOAuthConnection r.tenantId r.userId s with
        | none => simp [bind, Except.bind]
        | some connection => cases hactive : user.isActive <;> simp [bind, Except.bind, pure, Except.pure, hactive]

/-! ### The machine -/

def State.set (s : State) (i : Nat) (c : Credential) : State := {s with credentials := s.credentials.set i c}

/-- The token is returned. -/
def State.use (s : State) (c : Credential) (held : AccessToken) : State :=
  {s with uses := s.uses ++ [⟨s.now, c.tenantId, c.userId, held⟩]}

/-- `get_token` up to its request. -/
def getToken (i : Nat) (c : Credential) (s : State) : State :=
  match c.cached.filter (usable s.now) with
  | some held => s.use c held
  | none => s.set i {c with phase := .asking}

/-- The identity service looks at the account. -/
def check (i : Nat) (w : World) (c : Credential) (s : State) : State :=
  match checkAccount w c.request s.store with
  | .ok _ =>
    let x : Check := ⟨s.now, c.tenantId, c.userId, s.store⟩
    {s.set i {c with phase := .checked x} with checks := s.checks ++ [x]}
  | .error _ => s.set i {c with phase := .idle}

/-- It reads the refresh token, and asks Microsoft. -/
def connect (i : Nat) (x : Check) (c : Credential) (s : State) : State :=
  match Identity.getOAuthConnection c.tenantId c.userId s.store with
  | some connection => s.set i {c with phase := .connected x connection}
  | none => s.set i {c with phase := .idle}

/-- Microsoft answered, and the identity service does. -/
def giveOut (i : Nat) (w : World) (host : Identity.Host) (x : Check) (connection : OAuthConnection) (c : Credential)
    (s : State) : State :=
  match answer w host c.request connection s.store with
  | .ok (.azureToken accessToken expiresIn, store) =>
    {s.set i {c with phase := .answered ⟨x, accessToken, expiresIn⟩} with store := store}
  | _ => s.set i {c with phase := .idle}

/-- `get_token` from its answer on. -/
def receive (i : Nat) (x : Issue) (c : Credential) (s : State) : State :=
  match expiry s.now x.expiresIn with
  | some expiresOn =>
    let held : AccessToken := ⟨x.accessToken, expiresOn, x, s.now⟩
    (s.set i {c with cached := some held, phase := .idle}).use c held
  | none => s.set i {c with phase := .idle}

def step (a : Action) (s : State) : Option State :=
  match a with
  | .wait duration => some {s with now := s.now + duration}
  | .identity a => (Identity.step a s.store).map fun store => {s with store := store}
  | .create tenantId userId internalToken =>
    some {s with credentials := s.credentials ++ [⟨tenantId, userId, internalToken, none, .idle⟩]}
  | .getToken i => s.credentials[i]?.bind fun c =>
    match c.phase with
    | .idle => some (getToken i c s)
    | _ => none
  | .check i w => s.credentials[i]?.bind fun c =>
    match c.phase with
    | .asking => some (check i w c s)
    | _ => none
  | .connect i => s.credentials[i]?.bind fun c =>
    match c.phase with
    | .checked x => some (connect i x c s)
    | _ => none
  | .giveOut i w host => s.credentials[i]?.bind fun c =>
    match c.phase with
    | .connected x connection => some (giveOut i w host x connection c s)
    | _ => none
  | .receive i => s.credentials[i]?.bind fun c =>
    match c.phase with
    | .answered x => some (receive i x c s)
    | _ => none
  | .lose i => s.credentials[i]?.map fun c => s.set i {c with phase := .idle}
  | .close i => s.credentials[i]?.map fun c => s.set i {c with cached := none}

def initial (now : Nat) (store : Store) : State := ⟨now, store, [], [], []⟩

/-- What a step does, and of which credential in which phase. -/
inductive Next (s : State) : Action → State → Prop
  | wait (duration : Nat) : Next s (.wait duration) {s with now := s.now + duration}
  | identity (a : Identity.Action) (store : Store) : Next s (.identity a) {s with store := store}
  | create (tenantId userId : Uuid) (internalToken : Option String) : Next s (.create tenantId userId internalToken)
      {s with credentials := s.credentials ++ [⟨tenantId, userId, internalToken, none, .idle⟩]}
  | getToken {i : Nat} {c : Credential} (hc : c ∈ s.credentials) : Next s (.getToken i) (getToken i c s)
  | check {i : Nat} {c : Credential} (w : World) (hc : c ∈ s.credentials) : Next s (.check i w) (check i w c s)
  | connect {i : Nat} {c : Credential} {x : Check} (hc : c ∈ s.credentials) (hx : c.phase = .checked x) :
      Next s (.connect i) (connect i x c s)
  | giveOut {i : Nat} {c : Credential} {x : Check} {connection : OAuthConnection} (w : World) (host : Identity.Host)
      (hc : c ∈ s.credentials) (hx : c.phase = .connected x connection) :
      Next s (.giveOut i w host) (giveOut i w host x connection c s)
  | receive {i : Nat} {c : Credential} {x : Issue} (hc : c ∈ s.credentials) (hx : c.phase = .answered x) :
      Next s (.receive i) (receive i x c s)
  | lose {i : Nat} {c : Credential} (hc : c ∈ s.credentials) : Next s (.lose i) (s.set i {c with phase := .idle})
  | close {i : Nat} {c : Credential} (hc : c ∈ s.credentials) : Next s (.close i) (s.set i {c with cached := none})

/-- A step of a credential that is in the phase for it. -/
theorem next_of_phase {s s' : State} {a : Action} {i : Nat} {turn : Credential → Option State}
    (hstep : s.credentials[i]?.bind turn = some s')
    (hturn : ∀ c ∈ s.credentials, turn c = some s' → Next s a s') : Next s a s' := by
  obtain ⟨c, hc, hc'⟩ := Option.bind_eq_some_iff.mp hstep
  exact hturn c (List.mem_of_getElem? hc) hc'

theorem next_of_step {s s' : State} {a : Action} (hstep : step a s = some s') : Next s a s' := by
  cases a with
  | wait | create =>
    cases hstep
    constructor
  | identity a =>
    obtain ⟨store, -, rfl⟩ := Option.map_eq_some_iff.mp hstep
    exact .identity a store
  | getToken i =>
    refine next_of_phase hstep fun c hc hturn => ?_
    split at hturn <;> cases hturn
    exact .getToken hc
  | check i w =>
    refine next_of_phase hstep fun c hc hturn => ?_
    split at hturn <;> cases hturn
    exact .check w hc
  | connect i =>
    refine next_of_phase hstep fun c hc hturn => ?_
    split at hturn <;> rename_i hx <;> cases hturn
    exact .connect hc hx
  | giveOut i w host =>
    refine next_of_phase hstep fun c hc hturn => ?_
    split at hturn <;> rename_i hx <;> cases hturn
    exact .giveOut w host hc hx
  | receive i =>
    refine next_of_phase hstep fun c hc hturn => ?_
    split at hturn <;> rename_i hx <;> cases hturn
    exact .receive hc hx
  | lose i =>
    obtain ⟨c, hc, rfl⟩ := Option.map_eq_some_iff.mp hstep
    exact .lose (List.mem_of_getElem? hc)
  | close i =>
    obtain ⟨c, hc, rfl⟩ := Option.map_eq_some_iff.mp hstep
    exact .close (List.mem_of_getElem? hc)

/-! ### What a token is good for -/

/-- The account is there and active. -/
def Active (store : Store) (tenantId userId : Uuid) : Prop :=
  ∃ u ∈ store.users, u.tenantId = tenantId ∧ u.id = userId ∧ u.isActive

instance (store : Store) (tenantId userId : Uuid) : Decidable (Active store tenantId userId) :=
  inferInstanceAs (Decidable (∃ u ∈ store.users, u.tenantId = tenantId ∧ u.id = userId ∧ u.isActive))

theorem active_of_checked {w : World} {r : TokenRequest} {s : Store} (h : checkAccount w r s = .ok ()) :
    Active s r.tenantId r.userId := by
  obtain ⟨-, -, h⟩ := Fallible.bind_eq_ok.mp h
  split at h
  · rename_i tenant user htenant huser
    split_ifs at h with hactive
    have hkey := List.find?_some huser
    exact ⟨user, List.mem_of_find?_eq_some huser, (of_decide_eq_true hkey).1, (of_decide_eq_true hkey).2, hactive⟩
  · cases h

/-- The token is the account's, and its request passed the check of the account. -/
structure Sound (s : State) (tenantId userId : Uuid) (held : AccessToken) : Prop where
  check : held.issue.check ∈ s.checks
  tenantId : held.issue.check.tenantId = tenantId
  userId : held.issue.check.userId = userId
  token : held.token = held.issue.accessToken
  received : held.issue.check.time ≤ held.received ∧ held.received ≤ s.now
  expiresOn : expiry held.received held.issue.expiresIn = some held.expiresOn

/-- What the roundings of two timestamps before the year 10000 come to at most, in microseconds. -/
def slack : Nat := 100

/-- The token is returned as it arrives, or while more than 300 seconds are left, as far as the
rounding of timestamps goes. -/
structure Timely (u : Use) : Prop where
  after : u.held.received ≤ u.time
  left : u.time = u.held.received ∨ (u.time : Int) + 300 * Datetime.second <
    u.held.received + u.held.issue.expiresIn * Datetime.second + slack

/-- The check is of the credential's account. -/
def Passed (s : State) (c : Credential) (x : Check) : Prop :=
  x ∈ s.checks ∧ x.tenantId = c.tenantId ∧ x.userId = c.userId

structure Inv (s : State) : Prop where
  checks : ∀ x ∈ s.checks, x.time ≤ s.now ∧ Active x.store x.tenantId x.userId
  passed : ∀ c ∈ s.credentials, ∀ x ∈ c.phase.check, Passed s c x
  cached : ∀ c ∈ s.credentials, ∀ held, c.cached = some held → Sound s c.tenantId c.userId held
  uses : ∀ u ∈ s.uses, Sound s u.tenantId u.userId u.held ∧ Timely u

theorem inv_initial (now : Nat) (store : Store) : Inv (initial now store) :=
  ⟨by simp [initial], by simp [initial], by simp [initial], by simp [initial]⟩

section Step
variable {s s' : State}

theorem Sound.mono {tenantId userId : Uuid} {held : AccessToken} (h : Sound s tenantId userId held)
    (hnow : s.now ≤ s'.now) (hchecks : s.checks ⊆ s'.checks) : Sound s' tenantId userId held :=
  {h with check := hchecks h.check, received := ⟨h.received.1, h.received.2.trans hnow⟩}

theorem Passed.mono {c : Credential} {x : Check} (h : Passed s c x) (hchecks : s.checks ⊆ s'.checks) :
    Passed s' c x := ⟨hchecks h.1, h.2⟩

/-- Time before 1970 stays before, and after stays after. -/
theorem timestamp_nonneg {t : Int} (ht : 0 ≤ t) : 0 ≤ timestamp t := by
  have hq : (0 : ℚ) ≤ t / Datetime.second := by positivity
  have hround := (abs_le.mp (Binary64.abs_round_sub_le (t / Datetime.second))).1
  rw [abs_of_nonneg hq] at hround
  norm_num at hround
  rw [timestamp]
  linarith

theorem timestamp_nonpos {t : Int} (ht : t ≤ 0) : timestamp t ≤ 0 := by
  have hq : (t : ℚ) ≤ 0 := by exact_mod_cast ht
  have hseconds : (t / Datetime.second : ℚ) ≤ (0 : ℕ) := by
    rw [Nat.cast_zero]
    exact div_nonpos_of_nonpos_of_nonneg hq (by positivity)
  exact (Binary64.round_le_natCast (by norm_num) hseconds).trans Nat.cast_zero.le

theorem left_of_usable {now : Nat} {held : AccessToken} (h : usable now held)
    (hexpiry : expiry held.received held.issue.expiresIn = some held.expiresOn) :
    (now : Int) + 300 * Datetime.second <
      held.received + held.issue.expiresIn * Datetime.second + slack := by
  have husable : (300 : ℚ) < held.expiresOn - timestamp now := by
    by_contra hle
    have hround := Binary64.round_le_natCast (n := 300) (by norm_num) (by exact_mod_cast not_lt.mp hle)
    exact absurd (of_decide_eq_true h) (not_lt.mpr (by exact_mod_cast hround))
  unfold expiry at hexpiry
  generalize (held.received : Int) + held.issue.expiresIn * Datetime.second = t at hexpiry ⊢
  dsimp only at hexpiry
  split_ifs at hexpiry with hrange
  have hexpires : Binary64.truncate (timestamp t) = held.expiresOn := Option.some.inj hexpiry
  have hnow : 0 ≤ timestamp now := timestamp_nonneg (Int.natCast_nonneg now)
  -- What is cut off by `int` only matters before 1970.
  rcases le_or_gt t 0 with hneg | hpos
  · have hle : held.expiresOn ≤ 0 := hexpires ▸ Binary64.truncate_nonpos (timestamp_nonpos hneg)
    have : (held.expiresOn : ℚ) ≤ 0 := by exact_mod_cast hle
    linarith
  · have hle : (held.expiresOn : ℚ) ≤ timestamp t := hexpires ▸ Binary64.truncate_le (timestamp_nonneg hpos.le)
    have hup : timestamp t - t / Datetime.second ≤ _ := (abs_le.mp (Binary64.abs_round_sub_le _)).2
    have hdown : _ ≤ timestamp now - (now : Int) / Datetime.second := (abs_le.mp (Binary64.abs_round_sub_le _)).1
    rw [abs_of_nonneg (by positivity)] at hup hdown
    have hmax : (t : ℚ) < 253402300800000000 := by
      have : t < 253402300800000000 := hrange.2
      exact_mod_cast this
    have hleft : (now : ℚ) + 300 * Datetime.second < t + slack := by
      norm_num [Datetime.second, slack] at hup hdown ⊢
      linarith
    exact_mod_cast hleft

/-- Nothing but the tables or the clock changes for the credentials. -/
theorem Inv.elsewhere (h : Inv s) {now : Nat} (hnow : s.now ≤ now) (store : Store) :
    Inv {s with now := now, store := store} where
  checks := fun x hx => ⟨(h.checks x hx).1.trans hnow, (h.checks x hx).2⟩
  passed := h.passed
  cached := fun c hc held hheld => (h.cached c hc held hheld).mono hnow (List.Subset.refl _)
  uses := fun u hu => ⟨(h.uses u hu).1.mono hnow (List.Subset.refl _), (h.uses u hu).2⟩

/-- Credentials come and change. -/
theorem Inv.write (h : Inv s) {credentials : List Credential} (hnew : ∀ c ∈ credentials, c ∈ s.credentials ∨
    (∀ x ∈ c.phase.check, Passed s c x) ∧ ∀ held, c.cached = some held → Sound s c.tenantId c.userId held) :
    Inv {s with credentials := credentials} where
  checks := h.checks
  passed := by
    intro c hc
    rcases hnew c hc with hc | hc
    · exact h.passed c hc
    · exact hc.1
  cached := by
    intro c hc held hheld
    rcases hnew c hc with hc | hc
    · exact (h.cached c hc held hheld).mono (le_refl _) (List.Subset.refl _)
    · exact (hc.2 held hheld).mono (le_refl _) (List.Subset.refl _)
  uses := fun u hu => ⟨(h.uses u hu).1.mono (le_refl _) (List.Subset.refl _), (h.uses u hu).2⟩

theorem Inv.set (h : Inv s) (i : Nat) {c : Credential} (hpassed : ∀ x ∈ c.phase.check, Passed s c x)
    (hcached : ∀ held, c.cached = some held → Sound s c.tenantId c.userId held) : Inv (s.set i c) := by
  refine h.write fun c' hc' => ?_
  rcases List.mem_or_eq_of_mem_set hc' with hc' | rfl
  · exact .inl hc'
  · exact .inr ⟨hpassed, hcached⟩

/-- The request goes on, or is over. -/
theorem Inv.advance (h : Inv s) (i : Nat) {c : Credential} (hc : c ∈ s.credentials) {phase : Phase}
    (hphase : phase.check = none ∨ phase.check = c.phase.check) : Inv (s.set i {c with phase := phase}) := by
  refine h.set i (fun x hx => ?_) (h.cached c hc)
  rcases hphase with hnone | hsame
  · cases hnone.symm.trans hx
  · exact h.passed c hc x (hsame.symm.trans hx)

theorem Inv.use (h : Inv s) {c : Credential} {held : AccessToken} (hsound : Sound s c.tenantId c.userId held)
    (htimely : Timely ⟨s.now, c.tenantId, c.userId, held⟩) : Inv (s.use c held) where
  checks := h.checks
  passed := h.passed
  cached := fun c hc held hheld => (h.cached c hc held hheld).mono (le_refl _) (List.Subset.refl _)
  uses := by
    intro u hu
    rcases List.mem_append.mp hu with hu | hu
    · exact ⟨(h.uses u hu).1.mono (le_refl _) (List.Subset.refl _), (h.uses u hu).2⟩
    · obtain rfl := List.mem_singleton.mp hu
      exact ⟨hsound.mono (le_refl _) (List.Subset.refl _), htimely⟩

/-- An account is found active. -/
theorem Inv.checked (h : Inv s) {x : Check} (htime : x.time ≤ s.now) (hactive : Active x.store x.tenantId x.userId) :
    Inv {s with checks := s.checks ++ [x]} where
  checks := by
    intro y hy
    rcases List.mem_append.mp hy with hy | hy
    · exact h.checks y hy
    · obtain rfl := List.mem_singleton.mp hy
      exact ⟨htime, hactive⟩
  passed := fun c hc y hy => (h.passed c hc y hy).mono (List.subset_append_left _ _)
  cached := fun c hc held hheld => (h.cached c hc held hheld).mono (le_refl _) (List.subset_append_left _ _)
  uses := fun u hu => ⟨(h.uses u hu).1.mono (le_refl _) (List.subset_append_left _ _), (h.uses u hu).2⟩

theorem Inv.getToken (h : Inv s) {i : Nat} {c : Credential} (hc : c ∈ s.credentials) : Inv (getToken i c s) := by
  unfold Delegation.getToken
  split
  · rename_i held hheld
    obtain ⟨hcached, husable⟩ := Option.filter_eq_some_iff.mp hheld
    have hsound := h.cached c hc held hcached
    exact h.use hsound ⟨hsound.received.2, .inr (left_of_usable husable hsound.expiresOn)⟩
  · exact h.advance i hc (.inl rfl)

theorem Inv.check (h : Inv s) {i : Nat} {c : Credential} (hc : c ∈ s.credentials) (w : World) :
    Inv (check i w c s) := by
  unfold Delegation.check
  split
  · rename_i hchecked
    have hactive : Active s.store c.tenantId c.userId := active_of_checked hchecked
    refine (h.checked (x := ⟨s.now, c.tenantId, c.userId, s.store⟩) (le_refl _) hactive).set i ?_ fun held hheld => ?_
    · rintro x ⟨⟩
      exact ⟨List.mem_append_right _ (List.mem_singleton_self _), rfl, rfl⟩
    · exact (h.cached c hc held hheld).mono (le_refl _) (List.subset_append_left _ _)
  · exact h.advance i hc (.inl rfl)

theorem Inv.connect (h : Inv s) {i : Nat} {c : Credential} (hc : c ∈ s.credentials) {x : Check}
    (hx : c.phase = .checked x) : Inv (connect i x c s) := by
  unfold Delegation.connect
  split
  · exact h.advance i hc (.inr (by rw [hx]; rfl))
  · exact h.advance i hc (.inl rfl)

theorem Inv.giveOut (h : Inv s) {i : Nat} {c : Credential} (hc : c ∈ s.credentials) {x : Check}
    {connection : OAuthConnection} (hx : c.phase = .connected x connection) (w : World) (host : Identity.Host) :
    Inv (giveOut i w host x connection c s) := by
  unfold Delegation.giveOut
  split
  · rename_i accessToken expiresIn store hanswer
    have hanswered : Inv (s.set i {c with phase := .answered ⟨x, accessToken, expiresIn⟩}) :=
      h.advance i hc (.inr (by rw [hx]; rfl))
    exact hanswered.elsewhere (le_refl _) store
  · exact h.advance i hc (.inl rfl)

theorem Inv.receive (h : Inv s) {i : Nat} {c : Credential} (hc : c ∈ s.credentials) {x : Issue}
    (hx : c.phase = .answered x) : Inv (receive i x c s) := by
  obtain ⟨hmem, htenant, huser⟩ := h.passed c hc x.check (by rw [hx]; rfl)
  unfold Delegation.receive
  split
  · rename_i expiresOn hexpiry
    have hsound : Sound s c.tenantId c.userId ⟨x.accessToken, expiresOn, x, s.now⟩ :=
      ⟨hmem, htenant, huser, rfl, ⟨(h.checks _ hmem).1, le_refl _⟩, hexpiry⟩
    refine (h.set i (fun y hy => by cases hy) ?_).use (hsound.mono (le_refl _) (List.Subset.refl _))
      ⟨le_refl _, .inl rfl⟩
    rintro held ⟨⟩
    exact hsound
  · exact h.advance i hc (.inl rfl)

theorem inv_step {a : Action} (h : Inv s) (hstep : step a s = some s') : Inv s' := by
  cases next_of_step hstep with
  | wait duration => exact h.elsewhere (Nat.le_add_right _ _) s.store
  | identity a store => exact h.elsewhere (le_refl _) store
  | create tenantId userId internalToken =>
    refine h.write fun c hc => ?_
    rcases List.mem_append.mp hc with hc | hc
    · exact .inl hc
    · obtain rfl := List.mem_singleton.mp hc
      exact .inr ⟨fun x hx => (by cases hx), fun held hheld => (by cases hheld)⟩
  | getToken hc => exact h.getToken hc
  | check w hc => exact h.check hc w
  | connect hc hx => exact h.connect hc hx
  | giveOut w host hc hx => exact h.giveOut hc hx w host
  | receive hc hx => exact h.receive hc hx
  | lose hc => exact h.advance _ hc (.inl rfl)
  | @close i c hc => exact h.set i (h.passed c hc) fun held hheld => by cases hheld

/-- Checks are passed by active accounts. -/
theorem checks_step {a : Action} (hstep : step a s = some s') {x : Check} (hx : x ∈ s'.checks) :
    x ∈ s.checks ∨ Active s.store x.tenantId x.userId := by
  cases next_of_step hstep with
  | wait | identity | create | lose | close => exact .inl hx
  | check w hc =>
    unfold Delegation.check at hx
    split at hx
    · rename_i hchecked
      rcases List.mem_append.mp hx with hx | hx
      · exact .inl hx
      · obtain rfl := List.mem_singleton.mp hx
        exact .inr (active_of_checked hchecked)
    · exact .inl hx
  | getToken | connect | giveOut | receive =>
    simp only [Delegation.getToken, Delegation.connect, Delegation.giveOut, Delegation.receive] at hx
    split at hx <;> exact .inl hx

/-- While the account is not active, it passes no check. -/
theorem checks_run {tenantId userId : Uuid} {actions : List Action} (hrun : run step actions s = some s')
    (hrevoked : Always step (fun u => ¬ Active u.store tenantId userId) actions s) {x : Check} (hx : x ∈ s'.checks)
    (htenant : x.tenantId = tenantId) (huser : x.userId = userId) : x ∈ s.checks := by
  induction actions generalizing s with
  | nil =>
    obtain rfl := Option.some.inj hrun
    exact hx
  | cons a rest ih =>
    obtain ⟨t, ht, hrest⟩ := Option.bind_eq_some_iff.mp hrun
    rcases checks_step ht (ih hrest (hrevoked.2 t ht)) with hx | hactive
    · exact hx
    · exact absurd (htenant ▸ huser ▸ hactive) hrevoked.1

end Step

/-- **What a deactivated account's workers can still do**: from a state on in which the account
is not active, whatever workers and the identity service do, every token returned for it is one
whose request had passed the check of the account before, while it was active, and it is
returned as it arrives, or more than 300 seconds before the time it was given for, counted from
its arrival, is over, to a tenth of a millisecond. -/
theorem revoked_account (now : Nat) (store : Store) (before after : List Action) {s t : State}
    (hs : run step before (initial now store) = some s) {tenantId userId : Uuid}
    (hrevoked : Always step (fun u => ¬ Active u.store tenantId userId) after s)
    (ht : run step after s = some t) :
    ∀ u ∈ t.uses, u.tenantId = tenantId → u.userId = userId → u.held.token = u.held.issue.accessToken ∧
      u.held.issue.check ∈ s.checks ∧ u.held.issue.check.time ≤ s.now ∧
      Active u.held.issue.check.store tenantId userId ∧ Timely u := by
  rintro u hu rfl rfl
  have hinv : Inv s := Reachable.invariant ⟨before, hs⟩ (inv_initial now store) fun _ _ _ => inv_step
  have hend : Inv t := Reachable.invariant ⟨after, ht⟩ hinv fun _ _ _ => inv_step
  obtain ⟨hsound, htimely⟩ := hend.uses u hu
  have hchecked := checks_run ht hrevoked hsound.check hsound.tenantId hsound.userId
  obtain ⟨htime, hactive⟩ := hinv.checks _ hchecked
  rw [hsound.tenantId, hsound.userId] at hactive
  exact ⟨hsound.token, hchecked, htime, hactive, htimely⟩

/-- A worker asks for a token, and the user is deactivated while Microsoft is asked. -/
def sampleRevoked : List Action :=
  [.identity (.request Identity.sampleWorld Identity.sampleHost (.callback Identity.sampleCallback)),
   .create 1 2 (some "internal"), .getToken 0, .check 0 Identity.sampleWorld, .connect 0,
   .identity (.setActive 2 false)]

/-- It is given the token, and asks again after fifty minutes, and after an hour. -/
def sampleLater : List Action :=
  [.giveOut 0 Identity.sampleWorld Identity.sampleHost, .receive 0,
   .wait (50 * Datetime.minute), .getToken 0, .wait (10 * Datetime.minute), .getToken 0]

theorem revoked_account_sample : ∃ s t, run step sampleRevoked (initial 0 .empty) = some s ∧
    run step sampleLater s = some t ∧ t.uses.map Use.time = [0, 50 * Datetime.minute] ∧
    ∀ u ∈ t.uses, u.tenantId = 1 → u.userId = 2 → u.held.token = u.held.issue.accessToken ∧
      u.held.issue.check ∈ s.checks ∧ u.held.issue.check.time ≤ s.now ∧
      Active u.held.issue.check.store 1 2 ∧ Timely u := by
  have hend : (run step sampleRevoked (initial 0 .empty)).any (fun s =>
      decide (¬ Active s.store 1 2 ∧ EveryStep step (fun _ _ u => ¬ Active u.store 1 2) sampleLater s) &&
      (run step sampleLater s).any fun t => t.uses.map Use.time = [0, 50 * Datetime.minute]) = true := by
    decide +kernel
  obtain ⟨s, hs, hs'⟩ := (Option.any_eq_true _ _).mp hend
  obtain ⟨hrevoked, hlater⟩ := Bool.and_eq_true_iff.mp hs'
  obtain ⟨t, ht, huses⟩ := (Option.any_eq_true _ _).mp hlater
  obtain ⟨hinactive, hkept⟩ := of_decide_eq_true hrevoked
  exact ⟨s, t, hs, ht, of_decide_eq_true huses,
    revoked_account 0 .empty sampleRevoked sampleLater hs (EveryStep.always hinactive hkept) ht⟩

end Sentinel.Delegation
