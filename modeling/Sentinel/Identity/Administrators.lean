import Sentinel.Identity.Onboarding
import Sentinel.Library.History

/-! Who administers a tenant.

A callback makes its user an administrator if it made the tenant or counted no users in it.
Nothing keeps the count true until the commit, and bearer tokens add users as well: so a
tenant may end up with two administrators, or with none (`administrators_miscounted`). It
has the one it should in the runs where the first callback of a tenant counted before
anybody was added, and of the others none but its user's did (`one_admin_iff`). -/
namespace Sentinel.Identity.Transactions
open Library Library.Table Library.Transition Library.History Library.ReadCommitted

/-- The administrator a bootstrap on empty tables gives the tenant. -/
def configured (host : Host) (settings : BootstrapSettings) (tenantId : Uuid) : Option Uuid :=
  match settings.tenantId, settings.adminObjectId with
  | some _, some _ => if tenantId = host.tenantId then some host.userId else none
  | _, _ => none

/-- A tenant somebody has logged in to has one administrator: the one configured, and else
the first to have logged in. -/
def OneAdmin (configured : Uuid → Option Uuid) (l : Ledger) : Prop :=
  ∀ tenantId first, l.firstLogin tenantId = some first →
    ∀ u, u ∈ administrators l.store tenantId ↔ u = (configured tenantId).getD first

/-! ### Who had been added by the count -/

abbrev Event := Moment (System Ledger Txn) (ReadCommitted.Action Start Unit)

abbrev Past := List Event

abbrev Memory := Remembered (System Ledger Txn) (ReadCommitted.Action Start Unit)

/-- The user a transaction adds when it commits. -/
def Txn.newUser : Txn → Option User
  | .callback _ _ _ (.connected c) => if c.user.isFresh then some c.user.row else none
  | .bearer _ (.user u) => if u.isFresh then some u.row else none
  | _ => none

/-- A user of the tenant was added. -/
def AddsUser (tenantId : Uuid) (m : Event) : Prop :=
  ∃ i t u, m.2 = .commit i ∧ m.1.running i = some t ∧ t.newUser = some u ∧ u.tenantId = tenantId

def counting : Txn → Bool
  | .callback _ _ _ (.tenant _) => true
  | _ => false

/-- The callback `i` runs `count_users`. -/
def isCount (i : Nat) (m : Event) : Bool :=
  match m.2 with
  | .statement j _ => i == j && (m.1.running i).any counting
  | _ => false

/-- A user of the tenant had been added when the callback `i` counted. -/
def Occupied (past : Past) (i : Nat) (tenantId : Uuid) : Prop :=
  ∃ m ∈ before (isCount i) past, AddsUser tenantId m

/-- Of the callbacks to a tenant without a configured administrator, the first to commit
counted before anybody was added, and any other after that, unless it is of the same user. -/
def InTurn (configured : Uuid → Option Uuid) (h : Memory) (a : ReadCommitted.Action Start Unit) (_ : Memory) :
    Prop :=
  ∀ i login tokenAuthority issued c, a = .commit i →
    h.now.running i = some (.callback login tokenAuthority issued (.connected c)) →
    configured c.tenant.row.id = none →
      (h.now.committed.firstLogin c.tenant.row.id = none → ¬ Occupied h.past i c.tenant.row.id) ∧
      ∀ first, h.now.committed.firstLogin c.tenant.row.id = some first →
        c.user.row.id = first ∨ Occupied h.past i c.tenant.row.id

/-! ### Users and their tenants -/

def HasUsers (s : Store) (tenantId : Uuid) : Prop := ∃ u ∈ s.users, u.tenantId = tenantId

theorem countUsers_ne_zero {s : Store} {tenantId : Uuid} : countUsers tenantId s ≠ 0 ↔ HasUsers s tenantId := by
  simp [countUsers, HasUsers]

/-- Users have their tenants, and configured administrators are there. -/
structure Housed (configured : Uuid → Option Uuid) (s : Store) : Prop where
  users : ∀ u ∈ s.users, u.tenantId ∈ s.tenants.map Tenant.id
  configured : ∀ tenantId u, configured tenantId = some u → HasUsers s tenantId

/-- The tenant as a callback has read it. -/
def Onboarding.atTenant : Onboarding → Option AtTenant
  | .begun => none
  | .tenant c => some c
  | .counted c => some c.toAtTenant
  | .user c => some c.toAtTenant
  | .role c => some c.toAtTenant
  | .permissions c => some c.toAtTenant
  | .assigned c => some c.toAtTenant
  | .connected c => some c.toAtTenant

/-- The count of a callback. -/
def Onboarding.atCount : Onboarding → Option AtCount
  | .begun | .tenant _ => none
  | .counted c => some c
  | .user c => some c.toAtCount
  | .role c => some c.toAtCount
  | .permissions c => some c.toAtCount
  | .assigned c => some c.toAtCount
  | .connected c => some c.toAtCount

/-- The tenants that transactions have found are there. -/
def Found (s : Store) : Txn → Prop
  | .callback _ _ _ stage =>
    ∀ c ∈ stage.atTenant, c.tenant.isFresh = false → c.tenant.row.id ∈ s.tenants.map Tenant.id
  | .bearer _ (.tenant t) => t.id ∈ s.tenants.map Tenant.id
  | .bearer _ (.user u) => u.row.tenantId ∈ s.tenants.map Tenant.id
  | _ => True

theorem Found.grow {s s' : Store} {t : Txn} (h : Found s t)
    (hgrows : s.tenants.map Tenant.id ⊆ s'.tenants.map Tenant.id) : Found s' t := by
  cases t with
  | callback login tokenAuthority issued stage => exact fun c hc hfound => hgrows (h c hc hfound)
  | bearer login stage =>
    cases stage with
    | begun => trivial
    | tenant t => exact hgrows h
    | user u => exact hgrows h
  | token => trivial

theorem found_onboard {login : Login} {tokenAuthority encrypted : String} {issued : Nat} {s : Store}
    {stage stage' : Onboarding} (h : Found s (.callback login tokenAuthority issued stage))
    (hstage : onboard login tokenAuthority encrypted s stage = some stage') :
    Found s (.callback login tokenAuthority issued stage') := by
  cases stage with
  | begun =>
    cases hstage
    rintro c ⟨⟩ hfound
    cases hget : getTenantByScopeKey login.scopeKey s with
    | none => simp [readTenant, hget, lookup, Upsert.isFresh] at hfound
    | some t =>
      simp only [readTenant, hget, lookup, Upsert.row]
      exact List.mem_map_of_mem (List.mem_of_find?_eq_some hget)
  | connected => cases hstage
  | _ =>
    cases hstage
    exact h

theorem found_resolve {login : Login} {s : Store} {stage stage' : Resolving} (h : Found s (.bearer login stage))
    (hstage : resolve login s stage = some stage') : Found s (.bearer login stage') := by
  cases stage with
  | begun =>
    simp only [resolve] at hstage
    split at hstage
    · cases hstage
    · next t hget =>
      split_ifs at hstage
      cases hstage
      exact List.mem_map_of_mem (List.mem_of_find?_eq_some hget)
  | tenant t =>
    simp only [resolve] at hstage
    split_ifs at hstage
    cases hstage
    show (readUser login t.id s).row.tenantId ∈ s.tenants.map Tenant.id
    rw [(fits_readUser login s t.id).1]
    exact h
  | user u => cases hstage

section Commits
variable {p : Provider} {l l' : Ledger} {t : Txn}

/-- No tenant is lost. -/
theorem tenants_of_commits (h : Commits p l t l') :
    l.store.tenants.map Tenant.id ⊆ l'.store.tenants.map Tenant.id := by
  cases h with
  | @callback login tokenAuthority issued c s h =>
    have htenants : s.tenants = _ := congrArg Rows.tenants (writeOnboarding_rows h)
    rw [htenants]
    cases c.tenant with
    | found t =>
      rw [Upsert.write, map_rewrite (renamed_id _ _)]
      exact List.Subset.refl _
    | fresh t => simp [Upsert.write]
  | @bearer login u s h =>
    have htenants : s.tenants = l.store.tenants := congrArg Rows.tenants (writeUser_rows h)
    rw [htenants]
    exact List.Subset.refl _
  | @token host tenantId userId rotates c issued s h =>
    have htenants : s.tenants = l.store.tenants := congrArg Rows.tenants (writeConnection_rows h)
    rw [htenants]
    exact List.Subset.refl _
  | unrotated => exact List.Subset.refl _

theorem hasUsers_write {login : Login} {u : Upsert User} {s s' : Store}
    (hrows : s'.users = u.write (synced login u.row) s.users) {tenantId : Uuid} :
    HasUsers s' tenantId ↔ HasUsers s tenantId ∨ u.isFresh ∧ u.row.tenantId = tenantId := by
  have hknows : ∀ s : Store, HasUsers s tenantId ↔ ∃ userId, Knows s tenantId userId := by
    intro s
    simp [HasUsers, Knows]
  simp only [hknows, knows_write hrows, exists_or]
  simp

/-- The tenants with users after a commit. -/
theorem hasUsers_of_commits (h : Commits p l t l') (tenantId : Uuid) :
    HasUsers l'.store tenantId ↔ HasUsers l.store tenantId ∨ ∃ u, t.newUser = some u ∧ u.tenantId = tenantId := by
  cases h with
  | @callback login tokenAuthority issued c s h =>
    rw [hasUsers_write (congrArg Rows.users (writeOnboarding_rows h))]
    simp [Txn.newUser]
  | @bearer login u s h =>
    rw [hasUsers_write (congrArg Rows.users (writeUser_rows h))]
    simp [Txn.newUser]
  | @token host tenantId userId rotates c issued s h =>
    have husers : s.users = l.store.users := congrArg Rows.users (writeConnection_rows h)
    simp [HasUsers, Txn.newUser, husers]
  | unrotated => simp [Txn.newUser]

/-- A new user is of a tenant that is there. -/
theorem newUser_housed (h : Commits p l t l') {n : Nat} (hfits : Fitting n l t) (hfound : Found l.store t) {u : User}
    (hu : t.newUser = some u) : u.tenantId ∈ l'.store.tenants.map Tenant.id := by
  have hgrows := tenants_of_commits h
  cases h with
  | @callback login tokenAuthority issued c s h =>
    have htenants : s.tenants = _ := congrArg Rows.tenants (writeOnboarding_rows h)
    obtain ⟨-, rfl⟩ : c.user.isFresh ∧ c.user.row = u := by simpa [Txn.newUser] using hu
    rw [show c.user.row.tenantId = c.tenant.row.id from hfits.1.1.1]
    cases hfresh : c.tenant.isFresh with
    | false => exact hgrows (hfound c.toAtTenant rfl hfresh)
    | true =>
      rw [htenants]
      cases htenant : c.tenant with
      | found t => simp [htenant, Upsert.isFresh] at hfresh
      | fresh t => simp [Upsert.write, Upsert.row]
  | bearer h =>
    obtain ⟨-, rfl⟩ : _ ∧ _ = u := by simpa [Txn.newUser] using hu
    exact hgrows hfound
  | token | unrotated => cases hu

theorem housed_of_commits {conf : Uuid → Option Uuid} (h : Commits p l t l') (hhoused : Housed conf l.store) {n : Nat}
    (hfits : Fitting n l t) (hfound : Found l.store t) : Housed conf l'.store where
  users := by
    intro u hu
    rcases (hasUsers_of_commits h u.tenantId).mp ⟨u, hu, rfl⟩ with ⟨v, hv, htenant⟩ | ⟨v, hv, htenant⟩
    · rw [← htenant]
      exact tenants_of_commits h (hhoused.users v hv)
    · rw [← htenant]
      exact newUser_housed h hfits hfound hv
  configured := fun tenantId u hconf =>
    (hasUsers_of_commits h tenantId).mpr (.inl (hhoused.configured tenantId u hconf))

/-- A tenant that a commit adds had no users. -/
theorem no_users_of_fresh {login : Login} {tokenAuthority encrypted : String} {c : AtConnection} {s s' : Store}
    {conf : Uuid → Option Uuid} (h : writeOnboarding login tokenAuthority encrypted c s = .ok s')
    (hhoused : Housed conf s) (hfresh : c.tenant.isFresh) : ¬ HasUsers s c.tenant.row.id := by
  rintro ⟨u, hu, htenant⟩
  have htenants : s'.tenants = _ := congrArg Rows.tenants (writeOnboarding_rows h)
  cases hupsert : c.tenant with
  | found t => simp [hupsert, Upsert.isFresh] at hfresh
  | fresh t =>
    have hids := s'.tenantIds
    rw [htenants, hupsert] at hids
    refine (unique_snoc.mp hids).1 ?_
    rw [hupsert] at htenant
    exact htenant ▸ hhoused.users u hu

end Commits

/-! ### Whole runs -/

section Run
variable {p : Provider} {conf : Uuid → Option Uuid}

theorem keeps_housed : Keeps (protocol p) (fun l => Kept conf l ∧ Housed conf l.store)
    (fun n l t => Fitting n l t ∧ Found l.store t) where
  later := fun _ _ _ h => h
  begin := by
    intro n l r h
    refine ⟨keeps.begin n l r h.1, ?_⟩
    cases r with
    | callback login tokenAuthority => exact fun c hc => by cases hc
    | bearer | token => trivial
  statement := by
    intro n a l t t' hI hL hstatement
    refine ⟨keeps.statement n a l t t' hI.1 hL.1 hstatement, ?_⟩
    cases t with
    | callback login tokenAuthority issued stage =>
      obtain ⟨stage', hstage, rfl⟩ := Option.map_eq_some_iff.mp hstatement
      exact found_onboard hL.2 hstage
    | bearer login stage =>
      obtain ⟨stage', hstage, rfl⟩ := Option.map_eq_some_iff.mp hstatement
      exact found_resolve hL.2 hstage
    | token host tenantId userId rotates stage =>
      obtain ⟨stage', _, rfl⟩ := Option.map_eq_some_iff.mp hstatement
      trivial
  commit := fun n l t l' hI hL hcommit =>
    ⟨keeps.commit n l t l' hI.1 hL.1 hcommit, housed_of_commits (commits_of_commit hcommit) hI.2 hL.1 hL.2⟩
  others := fun n l t l' t' hI hL hcommit hL' =>
    ⟨keeps.others n l t l' t' hI.1 hL.1 hcommit hL'.1,
      hL'.2.grow (tenants_of_commits (commits_of_commit hcommit))⟩

/-- The count of a callback tells whether a user of its tenant had been added, or one was
configured. -/
structure Tally (conf : Uuid → Option Uuid) (past : Past) (i : Nat) (c : AtCount) : Prop where
  added : conf c.tenant.row.id = none → (c.existingCount ≠ 0 ↔ Occupied past i c.tenant.row.id)
  configured : ∀ u, conf c.tenant.row.id = some u → c.existingCount ≠ 0

/-- What is known along a run: the users of a tenant without a configured administrator are
those that were added. -/
structure Tallied (conf : Uuid → Option Uuid) (h : Memory) : Prop where
  holds : Holds (fun l => Kept conf l ∧ Housed conf l.store) (fun n l t => Fitting n l t ∧ Found l.store t) h.now
  added : ∀ tenantId, conf tenantId = none →
    (HasUsers h.now.committed.store tenantId ↔ ∃ m ∈ h.past, AddsUser tenantId m)
  counts : ∀ i login tokenAuthority issued stage,
    h.now.running i = some (.callback login tokenAuthority issued stage) →
    ∀ c ∈ stage.atCount, Tally conf h.past i c

theorem Tally.cons {past : Past} {i : Nat} {c : AtCount} (h : Tally conf past i c) {m : Event}
    (hm : isCount i m = false) : Tally conf (m :: past) i c := by
  refine ⟨?_, h.configured⟩
  unfold Occupied
  rw [before_cons_of_neg hm]
  exact h.added

/-- The count itself. -/
theorem tally_count {past : Past} {s : Store} {c : AtTenant} (hhoused : Housed conf s)
    (hadded : ∀ tenantId, conf tenantId = none → (HasUsers s tenantId ↔ ∃ m ∈ past, AddsUser tenantId m))
    {i : Nat} {m : Event} (hm : isCount i m = true) :
    Tally conf (m :: past) i ⟨c, countUsers c.tenant.row.id s⟩ := by
  refine ⟨?_, ?_⟩
  · intro hconf
    unfold Occupied
    rw [before_cons_of_pos hm]
    exact countUsers_ne_zero.trans (hadded _ hconf)
  · exact fun u hconf => countUsers_ne_zero.mpr (hhoused.configured _ u hconf)

/-- After its count, a callback keeps it. -/
theorem atCount_onboard {login : Login} {tokenAuthority encrypted : String} {s : Store} {stage stage' : Onboarding}
    (hstage : onboard login tokenAuthority encrypted s stage = some stage') :
    (∃ c, stage = .tenant c ∧ stage' = .counted ⟨c, countUsers c.tenant.row.id s⟩) ∨
      stage'.atCount = stage.atCount ∧ ∀ issued, counting (.callback login tokenAuthority issued stage) = false := by
  cases stage with
  | tenant c =>
    cases hstage
    exact .inl ⟨c, rfl, rfl⟩
  | connected => cases hstage
  | _ =>
    cases hstage
    exact .inr ⟨rfl, fun _ => rfl⟩

/-- A callback comes from the query before. -/
theorem callback_of_statement {n : Nat} {x : Unit} {l : Ledger} {t : Txn} {login : Login} {tokenAuthority : String}
    {issued : Nat} {stage' : Onboarding}
    (h : (protocol p).statement n x l t = some (.callback login tokenAuthority issued stage')) :
    ∃ stage, t = .callback login tokenAuthority issued stage ∧
      onboard login tokenAuthority (p.encrypted issued) l.store stage = some stage' := by
  cases t with
  | callback login' tokenAuthority' issued' stage =>
    obtain ⟨_, hstage, heq⟩ := Option.map_eq_some_iff.mp h
    cases heq
    exact ⟨stage, rfl, hstage⟩
  | bearer login' stage =>
    obtain ⟨_, _, heq⟩ := Option.map_eq_some_iff.mp h
    cases heq
  | token host tenantId userId rotates stage =>
    obtain ⟨_, _, heq⟩ := Option.map_eq_some_iff.mp h
    cases heq

theorem addsUser_commit {s : System Ledger Txn} {i : Nat} {t : Txn} (hi : s.running i = some t) {tenantId : Uuid} :
    AddsUser tenantId (s, .commit i) ↔ ∃ u, t.newUser = some u ∧ u.tenantId = tenantId := by
  refine ⟨?_, ?_⟩
  · rintro ⟨j, t', u, ⟨⟩, ht', hu, htenant⟩
    obtain rfl := Option.some.inj (hi.symm.trans ht')
    exact ⟨u, hu, htenant⟩
  · rintro ⟨u, hu, htenant⟩
    exact ⟨i, t, u, rfl, hi, hu, htenant⟩

/-- Only commits add users. -/
theorem not_addsUser {s : System Ledger Txn} {a : ReadCommitted.Action Start Unit} (ha : ∀ i, a ≠ .commit i)
    {tenantId : Uuid} : ¬ AddsUser tenantId (s, a) := by
  rintro ⟨i, t, u, hcommit, -⟩
  exact ha i hcommit

theorem exists_mem_cons_of_not {past : Past} {tenantId : Uuid} {m : Event} (hm : ¬ AddsUser tenantId m) :
    (∃ m' ∈ m :: past, AddsUser tenantId m') ↔ ∃ m' ∈ past, AddsUser tenantId m' := by
  simp [hm]

/-- **Every step keeps what is known.** -/
theorem Tallied.step {h h' : Memory} {a : ReadCommitted.Action Start Unit} (htallied : Tallied conf h)
    (hstep : remember (protocol p).step a h = some h') : Tallied conf h' := by
  obtain ⟨s, past⟩ := h
  obtain ⟨s', past'⟩ := h'
  obtain ⟨hs, rfl⟩ : (protocol p).step a s = some s' ∧ past' = (s, a) :: past := remember_eq_some.mp hstep
  refine ⟨holds_step keeps_housed htallied.holds hs, ?_, ?_⟩
  · intro tenantId hconf
    have hbefore := htallied.added tenantId hconf
    cases Protocol.step_cases hs with
    | begin | statement | abort =>
      rw [exists_mem_cons_of_not (not_addsUser (by simp))]
      exact hbefore
    | @commit _ i t c hi hc =>
      rw [hasUsers_of_commits (commits_of_commit hc), ← addsUser_commit hi, hbefore]
      simp [or_comm]
  · intro i login tokenAuthority issued stage hi c hc
    -- What the callback had counted it has counted.
    have hkept : s.running i = some (.callback login tokenAuthority issued stage) → isCount i (s, a) = false →
        Tally conf ((s, a) :: past) i c :=
      fun hi hcount => (htallied.counts i login tokenAuthority issued stage hi c hc).cons hcount
    cases Protocol.step_cases hs with
    | @begin _ j r =>
      rw [System.set_running] at hi
      split_ifs at hi with hij
      · cases r with
        | callback =>
          cases hi
          cases hc
        | bearer | token => cases hi
      · exact hkept hi rfl
    | @statement _ j x t t' hj hstatement =>
      rw [System.set_running] at hi
      split_ifs at hi with hij
      · subst hij
        obtain rfl := Option.some.inj hi
        obtain ⟨stage₀, rfl, hstage⟩ := callback_of_statement hstatement
        rcases atCount_onboard hstage with ⟨c', rfl, rfl⟩ | ⟨hsame, hnot⟩
        · obtain rfl := Option.some.inj hc
          refine tally_count htallied.holds.committed.2 htallied.added ?_
          simp [isCount, hj, counting]
        · rw [hsame] at hc
          refine (htallied.counts i login tokenAuthority issued stage₀ hj c hc).cons ?_
          simp [isCount, hj, hnot issued]
      · refine hkept hi ?_
        simp [isCount, hij]
    | commit | abort =>
      change (s.set _ none).running i = _ at hi
      rw [System.set_running] at hi
      split_ifs at hi
      exact hkept hi rfl

/-! ### Decisions -/

/-- The decisions that keep one administrator: the first callback of a tenant without a
configured one decides for it, and only one of the user who is due. -/
def Decides (configured : Uuid → Option Uuid) (l : Ledger) (c : AtConnection) : Prop :=
  (l.firstLogin c.tenant.row.id = none → configured c.tenant.row.id = none → c.administrator) ∧
  (c.administrator → c.user.row.id =
    (configured c.tenant.row.id).getD ((l.firstLogin c.tenant.row.id).getD c.user.row.id))

/-- A commit keeps one administrator exactly when it decides for the one due. -/
theorem oneAdmin_callback {l : Ledger} {s : Store} {c : AtConnection} {tokens : List ((Uuid × Uuid) × Nat)}
    (hkept : Kept conf l) (hone : OneAdmin conf l)
    (hadmins : ∀ tenantId u, u ∈ administrators s tenantId ↔ u ∈ administrators l.store tenantId ∨
      c.administrator ∧ tenantId = c.tenant.row.id ∧ u = c.user.row.id) :
    OneAdmin conf ⟨s, l.logins ++ [(c.tenant.row.id, c.user.row.id)], tokens⟩ ↔ Decides conf l c := by
  have hothers : ∀ tenantId, tenantId ≠ c.tenant.row.id →
      ∀ u, u ∈ administrators s tenantId ↔ u ∈ administrators l.store tenantId := by
    intro tenantId hne u
    rw [hadmins]
    exact or_iff_left fun h => hne h.2.1
  -- Only the tenant logged in to matters.
  have hown : OneAdmin conf ⟨s, l.logins ++ [(c.tenant.row.id, c.user.row.id)], tokens⟩ ↔
      ∀ u, (u ∈ administrators l.store c.tenant.row.id ∨ c.administrator ∧ u = c.user.row.id) ↔
        u = (conf c.tenant.row.id).getD ((l.firstLogin c.tenant.row.id).getD c.user.row.id) := by
    refine ⟨?_, ?_⟩
    · intro h u
      have := h c.tenant.row.id ((l.firstLogin c.tenant.row.id).getD c.user.row.id)
        (by rw [Ledger.firstLogin, firstLogin_snoc, if_pos rfl]) u
      rw [← this, hadmins]
      simp
    · intro h tenantId first hfirst u
      rw [Ledger.firstLogin, firstLogin_snoc] at hfirst
      split_ifs at hfirst with htenant
      · obtain rfl := Option.some.inj hfirst
        subst htenant
        rw [hadmins, ← h u]
        simp
      · rw [hothers tenantId (Ne.symm htenant)]
        exact hone tenantId first hfirst u
  rw [hown]
  unfold Decides
  cases hfirst : l.firstLogin c.tenant.row.id with
  | some first =>
    have hbefore := hone c.tenant.row.id first hfirst
    simp only [hbefore, Option.getD_some]
    refine ⟨?_, ?_⟩
    · exact fun h => ⟨fun hnone => (by cases hnone), fun hdecided => (h c.user.row.id).mp (.inr ⟨hdecided, rfl⟩)⟩
    · intro h u
      apply or_iff_left_of_imp
      rintro ⟨hdecided, rfl⟩
      exact h.2 hdecided
  | none =>
    have hbefore := hkept.configured c.tenant.row.id hfirst
    simp only [hbefore, Option.getD_none]
    cases hconf : conf c.tenant.row.id with
    | some admin =>
      simp only [Option.some.injEq, Option.getD_some]
      refine ⟨?_, ?_⟩
      · exact fun h => ⟨fun _ hnone => (by cases hnone), fun hdecided => (h c.user.row.id).mp (.inr ⟨hdecided, rfl⟩)⟩
      · intro h u
        rw [eq_comm]
        apply or_iff_left_of_imp
        rintro ⟨hdecided, rfl⟩
        exact h.2 hdecided
    | none =>
      simp only [reduceCtorEq, false_or, Option.getD_none]
      refine ⟨?_, ?_⟩
      · exact fun h => ⟨fun _ _ => ((h c.user.row.id).mpr rfl).1, fun _ => trivial⟩
      · intro h u
        exact and_iff_right (h.1 trivial trivial)

/-- A callback that commits decided for administrator exactly when nobody had been added to its
tenant at its count, and none is configured. -/
theorem administrator_iff {s : System Ledger Txn} {past : Past} (htallied : Tallied conf ⟨s, past⟩) {i : Nat}
    {login : Login} {tokenAuthority : String} {issued : Nat} {c : AtConnection} {t : Store}
    (hi : s.running i = some (.callback login tokenAuthority issued (.connected c)))
    (hwrite : writeOnboarding login tokenAuthority (p.encrypted issued) c s.committed.store = .ok t) :
    c.administrator ↔ conf c.tenant.row.id = none ∧ ¬ Occupied past i c.tenant.row.id := by
  have htally : Tally conf past i c.toAtCount := htallied.counts i _ _ _ _ hi c.toAtCount rfl
  have hfresh : c.tenant.isFresh → ¬ HasUsers s.committed.store c.tenant.row.id :=
    no_users_of_fresh hwrite htallied.holds.committed.2
  have hadministrator : c.administrator ↔ c.tenant.isFresh ∨ c.existingCount = 0 := by simp [AtCount.administrator]
  rw [hadministrator]
  cases hconf : conf c.tenant.row.id with
  | some u =>
    have husers := htallied.holds.committed.2.configured _ u hconf
    have hcount := htally.configured u hconf
    simp only [reduceCtorEq, false_and, iff_false, not_or]
    exact ⟨fun hnew => hfresh hnew husers, hcount⟩
  | none =>
    have hcount : c.existingCount ≠ 0 ↔ Occupied past i c.tenant.row.id := htally.added hconf
    rw [← hcount]
    simp only [true_and, not_not, or_iff_right_iff_imp]
    intro hnew
    by_contra hne
    obtain ⟨m, hm, hadds⟩ := hcount.mp hne
    exact hfresh hnew ((htallied.added _ hconf).mpr ⟨m, mem_of_before hm, hadds⟩)

theorem decides_iff_inTurn {s : System Ledger Txn} {past : Past} (htallied : Tallied conf ⟨s, past⟩) {i : Nat}
    {login : Login} {tokenAuthority : String} {issued : Nat} {c : AtConnection} {t : Store}
    (hi : s.running i = some (.callback login tokenAuthority issued (.connected c)))
    (hwrite : writeOnboarding login tokenAuthority (p.encrypted issued) c s.committed.store = .ok t)
    (h' : Memory) :
    Decides conf s.committed c ↔ InTurn conf ⟨s, past⟩ (.commit i) h' := by
  have hadministrator := administrator_iff htallied hi hwrite
  have hinTurn : InTurn conf ⟨s, past⟩ (.commit i) h' ↔ (conf c.tenant.row.id = none →
      (s.committed.firstLogin c.tenant.row.id = none → ¬ Occupied past i c.tenant.row.id) ∧
      ∀ first, s.committed.firstLogin c.tenant.row.id = some first →
        c.user.row.id = first ∨ Occupied past i c.tenant.row.id) := by
    refine ⟨fun h => h i login tokenAuthority issued c rfl hi, ?_⟩
    rintro h j login' tokenAuthority' issued' c' ⟨⟩ hj
    cases hi.symm.trans hj
    exact h
  rw [hinTurn]
  unfold Decides
  rw [hadministrator]
  cases hconf : conf c.tenant.row.id with
  | some admin => simp
  | none =>
    cases s.committed.firstLogin c.tenant.row.id with
    | none => simp
    | some first => simp [or_iff_not_imp_right]

theorem oneAdmin_iff_inTurn {h h' : Memory} {a : ReadCommitted.Action Start Unit} (htallied : Tallied conf h)
    (hone : OneAdmin conf h.now.committed) (hstep : remember (protocol p).step a h = some h') :
    OneAdmin conf h'.now.committed ↔ InTurn conf h a h' := by
  obtain ⟨s, past⟩ := h
  obtain ⟨s', past'⟩ := h'
  obtain ⟨hs, rfl⟩ : (protocol p).step a s = some s' ∧ past' = (s, a) :: past := remember_eq_some.mp hstep
  cases Protocol.step_cases hs with
  | begin | statement | abort =>
    refine ⟨fun _ => ?_, fun _ => hone⟩
    rintro i login tokenAuthority issued c ⟨⟩
  | @commit _ i t l' hi hc =>
    have hcommits := commits_of_commit hc
    have hkept := htallied.holds.committed.1
    have hadmins := administrators_of_commits hcommits hkept.referential (htallied.holds.running i t hi).1
    cases hcommits with
    | callback hwrite =>
      rw [← decides_iff_inTurn htallied hi hwrite]
      refine oneAdmin_callback hkept hone fun tenantId u => ?_
      rw [hadmins]
      refine or_congr_right ⟨?_, fun hnew => ⟨_, _, _, _, rfl, hnew⟩⟩
      rintro ⟨_, _, _, _, ⟨⟩, hnew⟩
      exact hnew
    | bearer | token | unrotated =>
      refine ⟨?_, fun _ tenantId first hfirst u => ?_⟩
      · rintro _ j login tokenAuthority issued c ⟨⟩ hj
        cases hi.symm.trans hj
      · refine Iff.trans (hadmins tenantId u) (Iff.trans (or_iff_left ?_) (hone tenantId first hfirst u))
        rintro ⟨_, _, _, _, ⟨⟩, -⟩

end Run

/-! ### After a bootstrap -/

section Bootstrap
variable {host : Host} {permissionIds : String → Uuid} {settings : BootstrapSettings} {s : Store}

/-- The tables after a bootstrap of empty ones: no users, or the configured administrator. -/
theorem bootstrap_cases (h : bootstrapIdentity host permissionIds settings .empty = .ok s) :
    s.users = [] ∧ s.userRoles = [] ∧ (∀ tenantId, configured host settings tenantId = none) ∨
    ∃ u r g, s.users = [u] ∧ s.roles = [r] ∧ s.userRoles = [g] ∧ u.id = host.userId ∧ u.tenantId = host.tenantId ∧
      r.tenantId = host.tenantId ∧ r.name = "TenantAdministrator" ∧ g.tenantId = host.tenantId ∧
      g.userId = host.userId ∧ g.roleId = r.id ∧ host.tenantId ∈ s.tenants.map Tenant.id ∧
      ∀ tenantId, configured host settings tenantId = if tenantId = host.tenantId then some host.userId else none := by
  rcases bootstrapIdentity_empty h with ⟨husers, hgrants, hunset⟩ | ⟨u, r, g, hrows⟩
  · refine .inl ⟨husers, hgrants, fun tenantId => ?_⟩
    unfold configured
    rcases hunset with hunset | hunset
    · simp [hunset]
    · cases settings.tenantId <;> simp [hunset]
  · obtain ⟨husers, hroles, hgrants, htenantSet, hadminSet, huid, hut, hrt, hname, hgt, hgu, hgr, htenants⟩ := hrows
    refine .inr ⟨u, r, g, husers, hroles, hgrants, huid, hut, hrt, hname, hgt, hgu, hgr, htenants, fun tenantId => ?_⟩
    obtain ⟨_, htenant⟩ := Option.isSome_iff_exists.mp htenantSet
    obtain ⟨_, hadmin⟩ := Option.isSome_iff_exists.mp hadminSet
    simp [configured, htenant, hadmin]

theorem kept_bootstrap (h : bootstrapIdentity host permissionIds settings .empty = .ok s) :
    Kept (configured host settings) ⟨s, [], []⟩ := by
  rcases bootstrap_cases h with ⟨husers, hgrants, hconf⟩ | ⟨u, r, g, hrows⟩
  · constructor
    · simp [Referential, hgrants]
    · intro tenantId _ u
      simp [hconf, administrators, husers]
  · obtain ⟨husers, hroles, hgrants, huid, hut, hrt, hname, hgt, hgu, hgr, -, hconf⟩ := hrows
    refine ⟨?_, ?_⟩
    · intro g' hg'
      rw [hgrants, List.mem_singleton] at hg'
      refine ⟨⟨u, by simp [husers], ?_, ?_⟩, by simp [hroles, hg', hgr]⟩
      · rw [huid, hg', hgu]
      · rw [hut, hg', hgt]
    · intro tenantId _ v
      rw [hconf, mem_administrators]
      simp only [Knows, husers, hroles, hgrants, List.mem_singleton, exists_eq_left, huid, hut, hgt, hgu, hgr,
        hrt, hname]
      grind

theorem housed_bootstrap (h : bootstrapIdentity host permissionIds settings .empty = .ok s) :
    Housed (configured host settings) s := by
  rcases bootstrap_cases h with ⟨husers, -, hconf⟩ | ⟨u, r, g, hrows⟩
  · exact ⟨by simp [husers], by simp [hconf]⟩
  · obtain ⟨husers, -, -, -, hut, -, -, -, -, -, htenants, hconf⟩ := hrows
    refine ⟨?_, ?_⟩
    · intro v hv
      rw [husers, List.mem_singleton] at hv
      rwa [hv, hut]
    · intro tenantId v hv
      rw [hconf] at hv
      split_ifs at hv with htenant
      exact ⟨u, by simp [husers], hut.trans htenant.symm⟩

/-- A tenant without a configured administrator has nobody yet. -/
theorem no_users_bootstrap (h : bootstrapIdentity host permissionIds settings .empty = .ok s) {tenantId : Uuid}
    (hnone : configured host settings tenantId = none) : ¬ HasUsers s tenantId := by
  rintro ⟨v, hv, htenant⟩
  rcases bootstrap_cases h with ⟨husers, -, -⟩ | ⟨u, r, g, hrows⟩
  · simp [husers] at hv
  · obtain ⟨husers, -, -, -, hut, -, -, -, -, -, -, hconf⟩ := hrows
    rw [husers, List.mem_singleton] at hv
    rw [hconf, if_pos (htenant.symm.trans (hv ▸ hut))] at hnone
    cases hnone

theorem tallied_bootstrap (h : bootstrapIdentity host permissionIds settings .empty = .ok s) :
    Tallied (configured host settings) (start (.idle ⟨s, [], []⟩)) where
  holds := holds_idle ⟨kept_bootstrap h, housed_bootstrap h⟩
  added := by
    intro tenantId hnone
    have hnobody : ¬ HasUsers s tenantId := no_users_bootstrap h hnone
    simpa [start, System.idle] using hnobody
  counts := by simp [start, System.idle]

end Bootstrap

/-- **One administrator** for every tenant somebody logged in to, all along a run after a
bootstrap of empty tables, exactly when the callbacks of the run that commit took their turns:
of those to a tenant without a configured administrator, the first counted before anybody was
added to it, and any other did not, unless it is of the same user. -/
theorem one_admin_iff (p : Provider) {host : Host} {permissionIds : String → Uuid} {settings : BootstrapSettings}
    {s : Store} (h : bootstrapIdentity host permissionIds settings .empty = .ok s)
    (actions : List (ReadCommitted.Action Start Unit)) :
    Always (protocol p).step (fun s => OneAdmin (configured host settings) s.committed) actions
        (.idle ⟨s, [], []⟩) ↔
      EveryStep (remember (protocol p).step) (InTurn (configured host settings)) actions
        (start (.idle ⟨s, [], []⟩)) := by
  refine always_remember.symm.trans (always_iff_everyStep (I := Tallied (configured host settings))
    (N := fun _ => True) (tallied_bootstrap h) ?_ ?_ ?_ ?_)
  · intro tenantId first hfirst
    simp [Ledger.firstLogin, start, System.idle] at hfirst
  · exact Always.of_invariant actions trivial fun _ _ _ _ _ => trivial
  · exact fun _ _ _ hI hstep => hI.step hstep
  · exact fun _ _ _ hI _ _ hP hstep => oneAdmin_iff_inTurn hI hP hstep

/-! ### Miscounts -/

/-- Two callbacks to a tenant without users; both have counted when the first commits. -/
def crossingLogins : List (ReadCommitted.Action Start Unit) :=
  [.begin 0 (.callback (sampleLogin 6) "common"), .begin 1 (.callback (sampleLogin 7) "common"),
    .statement 1 (), .statement 1 ()] ++ queries 0 ++ [.commit 0] ++
    List.replicate 5 (.statement 1 ()) ++ [.commit 1]

/-- A bearer token of one user, then a callback of another. -/
def bearerFirst : List (ReadCommitted.Action Start Unit) :=
  [.begin 0 (.bearer (sampleLogin 6)), .statement 0 (), .statement 0 (), .commit 0,
    .begin 1 (.callback (sampleLogin 7) "common")] ++ queries 1 ++ [.commit 1]

/-- Who administers the bootstrapped tenant after a run, and who logged in first. -/
def outcome (actions : List (ReadCommitted.Action Start Unit)) : Option (List Uuid × Option Uuid) :=
  match bootstrapIdentity sampleHost samplePermissionIds (sampleSettings (some 5) none) .empty with
  | .error _ => none
  | .ok s => (run (protocol sampleProvider).step actions (.idle ⟨s, [], []⟩)).map fun s =>
    (administrators s.committed.store 1, s.committed.firstLogin 1)

theorem not_oneAdmin_of_outcome {actions : List (ReadCommitted.Action Start Unit)} {admins : List Uuid}
    {first : Uuid} (h : outcome actions = some (admins, some first)) (hwrong : admins ≠ [first])
    (hnodup : admins.Nodup) :
    ∃ s, bootstrapIdentity sampleHost samplePermissionIds (sampleSettings (some 5) none) .empty = .ok s ∧
      ¬ Always (protocol sampleProvider).step
        (fun s => OneAdmin (configured sampleHost (sampleSettings (some 5) none)) s.committed) actions
        (.idle ⟨s, [], []⟩) := by
  unfold outcome at h
  split at h
  · cases h
  · next s hboot =>
    obtain ⟨t, hrun, hpair⟩ := Option.map_eq_some_iff.mp h
    obtain ⟨hadmins, hfirst⟩ := Prod.mk.inj hpair
    refine ⟨s, hboot, fun hall => hwrong ?_⟩
    have hone := hall.last hrun 1 first hfirst
    rw [hadmins] at hone
    exact (List.perm_singleton.mp ((List.perm_ext_iff_of_nodup hnodup (List.nodup_singleton first)).mpr
      fun u => (hone u).trans List.mem_singleton.symm))

/-- Two administrators after the crossing logins, and none after the bearer token. -/
theorem administrators_miscounted :
    ∃ s, bootstrapIdentity sampleHost samplePermissionIds (sampleSettings (some 5) none) .empty = .ok s ∧
      ∀ actions ∈ [crossingLogins, bearerFirst], ¬ Always (protocol sampleProvider).step
        (fun s => OneAdmin (configured sampleHost (sampleSettings (some 5) none)) s.committed) actions
        (.idle ⟨s, [], []⟩) := by
  have hcrossing : outcome crossingLogins = some ([62, 72], some 62) := by decide +kernel
  have hbearer : outcome bearerFirst = some ([], some 72) := by decide +kernel
  obtain ⟨s, hboot, htwo⟩ := not_oneAdmin_of_outcome hcrossing (by decide) (by decide)
  obtain ⟨s', hboot', hnone⟩ := not_oneAdmin_of_outcome hbearer (by decide) (by decide)
  obtain rfl : s = s' := Except.ok.inj (hboot.symm.trans hboot')
  exact ⟨s, hboot, List.forall_mem_cons.mpr ⟨htwo, List.forall_mem_singleton.mpr hnone⟩⟩

/-- A configured administrator; nobody else becomes one. -/
theorem one_admin_iff_configured :
    ∃ s, bootstrapIdentity sampleHost samplePermissionIds (sampleSettings (some 5) (some 6)) .empty = .ok s ∧
      (Always (protocol sampleProvider).step
          (fun s => OneAdmin (configured sampleHost (sampleSettings (some 5) (some 6))) s.committed)
          crossingLogins (.idle ⟨s, [], []⟩) ↔
        EveryStep (remember (protocol sampleProvider).step)
          (InTurn (configured sampleHost (sampleSettings (some 5) (some 6)))) crossingLogins
          (start (.idle ⟨s, [], []⟩))) := by
  have hok : (bootstrapIdentity sampleHost samplePermissionIds (sampleSettings (some 5) (some 6))
      .empty).toOption.isSome = true := by decide +kernel
  obtain ⟨s, hs⟩ := Option.isSome_iff_exists.mp hok
  have hboot := Fallible.toOption_eq_some.mp hs
  exact ⟨s, hboot, one_admin_iff sampleProvider hboot crossingLogins⟩

end Sentinel.Identity.Transactions
