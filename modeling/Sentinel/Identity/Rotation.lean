import Sentinel.Identity.Onboarding

/-! Which refresh token of a user is stored.

The provider is asked inside the transaction that stores its answer, and nothing keeps two
such transactions apart: whoever commits last has stored last. That is the newest token
exactly if the last to commit was also the last to be answered (`newest_iff`); `rotation_lost`
is a run where it was not. -/
namespace Sentinel.Identity.Transactions
open Library Library.Table Library.Transition Library.ReadCommitted

/-- What is assumed of the provider and the cipher: tokens are fresh, and what is encrypted
decrypts to what it was. -/
structure Provider.Lawful (p : Provider) : Prop where
  decrypt_encrypt : ∀ n token, p.decrypt (p.encrypt n token) = some token
  fresh : ∀ m n, p.token m = p.token n → m = n

/-- The connection of a user. -/
def connectionKey (user : Uuid × Uuid) : Uuid × Uuid × String := (user.1, user.2, "microsoft")

/-- The tokens committed for a user, each by the time it was issued, in the order of the
commits. -/
def Ledger.issued (l : Ledger) (user : Uuid × Uuid) : List Nat :=
  (l.tokens.filter fun entry => entry.1 = user).map Prod.snd

/-- The stored token is the most recently issued of those committed. -/
def Newest (p : Provider) (l : Ledger) (user : Uuid × Uuid) : Prop :=
  ∃ n ∈ l.issued user, (∀ m ∈ l.issued user, m ≤ n) ∧
    ∃ c ∈ l.store.connections, c.key = connectionKey user ∧
      p.decrypt c.encryptedRefreshToken = some (p.token n)

/-! ### The last to commit is the one stored -/

/-- A connection of the user has this id. -/
def Connects (s : Store) (id : Uuid) (user : Uuid × Uuid) : Prop :=
  ∃ c ∈ s.connections, c.id = id ∧ c.key = connectionKey user

/-- The connection a transaction writes to is the user's. -/
def Reaches (s : Store) (c : Upsert OAuthConnection) (user : Uuid × Uuid) : Prop :=
  c.row.key = connectionKey user ∧ (c.isFresh ∨ Connects s c.row.id user)

def Connected (p : Provider) (_ : Nat) (l : Ledger) : Txn → Prop
  | .callback _ _ issued (.connected c) => Reaches l.store c.connection (c.tenant.row.id, c.user.row.id) ∧
    (c.connection.isFresh → c.connection.row.encryptedRefreshToken = p.encrypted issued)
  | .token _ tenantId userId _ (.connection c) => Reaches l.store (.found c) (tenantId, userId)
  | .token _ tenantId userId _ (.answered c _) => Reaches l.store (.found c) (tenantId, userId)
  | _ => True

/-- The token stored for a user is the one committed last. -/
def LastStored (p : Provider) (l : Ledger) : Prop :=
  ∀ user n, (l.issued user).getLast? = some n →
    ∃ c ∈ l.store.connections, c.key = connectionKey user ∧ c.encryptedRefreshToken = p.encrypted n

theorem reaches_lookup {s : Store} {tenantId userId : Uuid} {new : OAuthConnection}
    (hnew : new.key = connectionKey (tenantId, userId)) :
    Reaches s (lookup (getOAuthConnection tenantId userId s) new) (tenantId, userId) := by
  cases hfind : getOAuthConnection tenantId userId s with
  | none => exact ⟨hnew, .inl rfl⟩
  | some c =>
    have hkey : c.key = (tenantId, userId, "microsoft") := by simpa using List.find?_some hfind
    exact ⟨hkey, .inr ⟨c, List.mem_of_find?_eq_some hfind, rfl, hkey⟩⟩

section Writes
variable {host : Host} {c : Upsert OAuthConnection} {tokenAuthority encrypted : String} {s s' : Store}

theorem connects_write (hrows : s'.connections = c.write (reconnected host c.row tokenAuthority encrypted) s.connections)
    {id : Uuid} {user : Uuid × Uuid} (h : Connects s id user) : Connects s' id user := by
  obtain ⟨row, hrow, hid, hkey⟩ := h
  unfold Connects
  rw [hrows]
  cases c with
  | fresh new => exact ⟨row, List.mem_append_left _ hrow, hid, hkey⟩
  | found loaded =>
    exact ⟨_, List.mem_map_of_mem hrow, (reconnected_id host loaded _ _ row).trans hid,
      (reconnected_key host loaded _ _ row).trans hkey⟩

/-- The connection holds what was written to it. -/
theorem stored_write (hrows : s'.connections = c.write (reconnected host c.row tokenAuthority encrypted) s.connections)
    {user : Uuid × Uuid} (hc : Reaches s c user)
    (hnew : c.isFresh → c.row.encryptedRefreshToken = encrypted) :
    ∃ row ∈ s'.connections, row.key = connectionKey user ∧ row.encryptedRefreshToken = encrypted := by
  rw [hrows]
  obtain ⟨hkey, hreach⟩ := hc
  cases c with
  | fresh new => exact ⟨new, List.mem_append_right _ (List.mem_singleton_self new), hkey, hnew rfl⟩
  | found loaded =>
    obtain ⟨row, hrow, hid, hrowKey⟩ := hreach.resolve_left (by simp [Upsert.isFresh])
    refine ⟨_, List.mem_map_of_mem hrow, (reconnected_key host loaded _ _ row).trans hrowKey, ?_⟩
    simp [reconnected, hid]

/-- The connections of others hold what they held. -/
theorem stored_write_other
    (hrows : s'.connections = c.write (reconnected host c.row tokenAuthority encrypted) s.connections)
    {user other : Uuid × Uuid} (hc : Reaches s c user) (hne : other ≠ user) {text : String}
    (h : ∃ row ∈ s.connections, row.key = connectionKey other ∧ row.encryptedRefreshToken = text) :
    ∃ row ∈ s'.connections, row.key = connectionKey other ∧ row.encryptedRefreshToken = text := by
  rw [hrows]
  obtain ⟨row, hrow, hkey, htext⟩ := h
  cases c with
  | fresh new => exact ⟨row, List.mem_append_left _ hrow, hkey, htext⟩
  | found loaded =>
    obtain ⟨row', hrow', hid, hkey'⟩ := hc.2.resolve_left (by simp [Upsert.isFresh])
    refine ⟨_, List.mem_map_of_mem hrow, (reconnected_key host loaded _ _ row).trans hkey, ?_⟩
    have hother : row.id ≠ loaded.id := by
      intro heq
      rw [s.connectionIds.eq hrow hrow' (heq.trans hid.symm), hkey'] at hkey
      simp only [connectionKey, Prod.mk.injEq, and_true] at hkey
      exact hne (Prod.ext hkey.1.symm hkey.2.symm)
    show (reconnected host loaded tokenAuthority encrypted row).encryptedRefreshToken = text
    rwa [reconnected, if_neg hother]

end Writes

theorem issued_snoc (l : Ledger) (store : Store) (logins : List (Uuid × Uuid)) (owner user : Uuid × Uuid)
    (n : Nat) : (Ledger.mk store logins (l.tokens ++ [(owner, n)])).issued user =
      if owner = user then l.issued user ++ [n] else l.issued user := by
  unfold Ledger.issued
  rw [List.filter_append, List.map_append]
  split_ifs with howner <;> simp [howner]

section Commits
variable {p : Provider} {l l' : Ledger} {t : Txn}

/-- What a commit does to the connections. -/
theorem connections_of_commits (h : Commits p l t l') :
    l'.store.connections = l.store.connections ∨
    ∃ host c tokenAuthority encrypted, l'.store.connections =
      Upsert.write c (reconnected host c.row tokenAuthority encrypted) l.store.connections := by
  cases h with
  | callback h =>
    have hrows := congrArg Rows.connections (writeOnboarding_rows h)
    exact .inr ⟨_, _, _, _, hrows⟩
  | bearer h => exact .inl (congrArg Rows.connections (writeUser_rows h))
  | @token host tenantId userId rotates c issued s h =>
    have hrows : s.connections = Upsert.write (.found c) (reconnected host c c.tokenAuthority (p.encrypted issued))
      l.store.connections := congrArg Rows.connections (writeConnection_rows h)
    exact .inr ⟨host, .found c, _, _, hrows⟩
  | unrotated => exact .inl rfl

theorem connects_of_commits (h : Commits p l t l') {id : Uuid} {user : Uuid × Uuid}
    (hc : Connects l.store id user) : Connects l'.store id user := by
  rcases connections_of_commits h with heq | ⟨_, _, _, _, heq⟩
  · unfold Connects
    rw [heq]
    exact hc
  · exact connects_write heq hc

/-- A commit that stores a token for a user stores it in the user's connection, and leaves
what others have stored. -/
theorem lastStored_write {s : Store} {logins : List (Uuid × Uuid)} {host : Host} {c : Upsert OAuthConnection}
    {tokenAuthority : String} {owner : Uuid × Uuid} {n : Nat} (hlast : LastStored p l)
    (hrows : s.connections = c.write (reconnected host c.row tokenAuthority (p.encrypted n)) l.store.connections)
    (hc : Reaches l.store c owner) (hnew : c.isFresh → c.row.encryptedRefreshToken = p.encrypted n) :
    LastStored p ⟨s, logins, l.tokens ++ [(owner, n)]⟩ := by
  intro user m hm
  rw [issued_snoc] at hm
  split_ifs at hm with howner
  · subst howner
    rw [List.getLast?_append_of_ne_nil _ (List.cons_ne_nil n []), List.getLast?_singleton] at hm
    cases hm
    exact stored_write hrows hc hnew
  · exact stored_write_other hrows hc (Ne.symm howner) (hlast user m hm)

theorem lastStored_of_commits (h : Commits p l t l') {n : Nat} (hlast : LastStored p l)
    (hconnected : Connected p n l t) : LastStored p l' := by
  cases h with
  | callback h =>
    have hrows := congrArg Rows.connections (writeOnboarding_rows h)
    exact lastStored_write hlast hrows hconnected.1 hconnected.2
  | @bearer login u s h =>
    have hrows : s.connections = l.store.connections := congrArg Rows.connections (writeUser_rows h)
    intro user m hm
    rw [hrows]
    exact hlast user m hm
  | @token host tenantId userId rotates c issued s h =>
    have hrows : s.connections = Upsert.write (.found c) (reconnected host c c.tokenAuthority (p.encrypted issued))
      l.store.connections := congrArg Rows.connections (writeConnection_rows h)
    exact lastStored_write (c := .found c) hlast hrows hconnected nofun
  | unrotated => exact hlast

theorem Reaches.mono {s s' : Store} (h : ∀ id user, Connects s id user → Connects s' id user)
    {c : Upsert OAuthConnection} {user : Uuid × Uuid} (hc : Reaches s c user) : Reaches s' c user :=
  ⟨hc.1, hc.2.imp_right (h _ _)⟩

theorem Connected.mono {n : Nat} (h : ∀ id user, Connects l.store id user → Connects l'.store id user)
    (ht : Connected p n l t) : Connected p n l' t := by
  cases t with
  | callback login tokenAuthority issued stage =>
    cases stage with
    | connected c => exact ⟨ht.1.mono h, ht.2⟩
    | _ => trivial
  | bearer => trivial
  | token host tenantId userId rotates stage =>
    cases stage with
    | connection c => exact Reaches.mono h ht
    | answered c issued => exact Reaches.mono h ht
    | _ => trivial

theorem connected_statement {n : Nat} {t' : Txn} (ht : Connected p n l t)
    (hstatement : statement p n l.store t = some t') : Connected p (n + 1) l t' := by
  cases t with
  | callback login tokenAuthority issued stage =>
    obtain ⟨stage', hstage, rfl⟩ := Option.map_eq_some_iff.mp hstatement
    cases stage with
    | assigned c =>
      cases hstage
      refine ⟨reaches_lookup rfl, fun hfresh => ?_⟩
      cases hfind : getOAuthConnection c.tenant.row.id c.user.row.id l.store with
      | none => rfl
      | some row => simp [lookup, hfind, Upsert.isFresh] at hfresh
    | connected c => cases hstage
    | _ =>
      cases hstage
      trivial
  | bearer login stage =>
    obtain ⟨stage', _, rfl⟩ := Option.map_eq_some_iff.mp hstatement
    trivial
  | token host tenantId userId rotates stage =>
    obtain ⟨stage', hstage, rfl⟩ := Option.map_eq_some_iff.mp hstatement
    cases stage with
    | begun =>
      obtain ⟨_, _, rfl⟩ := Option.map_eq_some_iff.mp hstage
      trivial
    | tenant =>
      simp only [delegate] at hstage
      split at hstage
      · cases hstage
      · split_ifs at hstage
        cases hstage
        trivial
    | user =>
      obtain ⟨c, hfind, rfl⟩ := Option.map_eq_some_iff.mp hstage
      have hkey : c.key = (tenantId, userId, "microsoft") := by simpa using List.find?_some hfind
      have hreaches : Reaches l.store (lookup (getOAuthConnection tenantId userId l.store) c) (tenantId, userId) :=
        reaches_lookup hkey
      rwa [hfind] at hreaches
    | connection c =>
      cases hstage
      exact ht
    | answered => cases hstage

end Commits

theorem keeps_lastStored (p : Provider) : Keeps (protocol p) (LastStored p) (Connected p) where
  later := fun _ _ t h => by cases t <;> exact h
  begin := by
    intro n l r _
    cases r <;> trivial
  statement := fun _ _ _ _ _ _ ht hstatement => connected_statement ht hstatement
  commit := fun _ _ _ _ hlast ht hcommit => lastStored_of_commits (commits_of_commit hcommit) hlast ht
  others := fun _ _ _ _ _ _ _ hcommit ht' =>
    ht'.mono fun _ _ => connects_of_commits (commits_of_commit hcommit)

/-- **The stored token is the newest** committed for the user exactly when the last to commit
is the most recently issued; so in every state of a run, and when the run is over. -/
theorem newest_iff {p : Provider} (hp : p.Lawful) {s : Store}
    {actions : List (ReadCommitted.Action Start Unit)} {s' : System Ledger Txn}
    (hrun : run (protocol p).step actions (.idle ⟨s, [], []⟩) = some s') {user : Uuid × Uuid} {last : Nat}
    (hlast : (s'.committed.issued user).getLast? = some last) :
    Newest p s'.committed user ↔ ∀ m ∈ s'.committed.issued user, m ≤ last := by
  have hholds : Holds (LastStored p) (Connected p) s' := by
    refine Reachable.invariant ⟨actions, hrun⟩ (holds_idle ?_) fun _ _ _ h hstep =>
      holds_step (keeps_lastStored p) h hstep
    intro user n hn
    simp [Ledger.issued] at hn
  obtain ⟨c, hc, hkey, htext⟩ := hholds.committed user last hlast
  have hdecrypt : p.decrypt c.encryptedRefreshToken = some (p.token last) := by
    rw [htext]
    exact hp.decrypt_encrypt last _
  refine ⟨?_, ?_⟩
  · rintro ⟨n, -, hmax, c', hc', hkey', hdecrypt'⟩
    obtain rfl := s'.committed.store.connectionKeys.eq hc' hc (hkey'.trans hkey.symm)
    obtain rfl := hp.fresh n last (Option.some.inj (hdecrypt'.symm.trans hdecrypt))
    exact hmax
  · intro hmax
    exact ⟨last, List.mem_of_getLast? hlast, hmax, c, hc, hkey, hdecrypt⟩

/-! ### A token lost -/

/-- A cipher that marks what it encrypts. -/
def markingProvider : Provider where
  token := fun n => String.ofList (Nat.toDigits 10 n)
  encrypt := fun _ token => String.ofList ('#' :: token.toList)
  decrypt := fun text => some (String.ofList (text.toList.drop 1))

theorem lawful_markingProvider : markingProvider.Lawful where
  decrypt_encrypt := by simp [markingProvider]
  fresh := fun _ _ h => Digits.decimal_inj (String.ofList_injective h)

/-- A login, then two requests for a delegated token: the first to be answered commits last. -/
def crossingRequests : List (ReadCommitted.Action Start Unit) :=
  [.begin 0 (.callback (sampleLogin 6) "common")] ++ queries 0 ++ [.commit 0] ++
    ([1, 2].map fun i => .begin i (.token laterHost 1 62 true)) ++
    List.replicate 4 (.statement 1 ()) ++ List.replicate 4 (.statement 2 ()) ++ [.commit 2, .commit 1]

/-- The token issued first is the one stored, when all is over. -/
theorem rotation_lost : ∃ s s', bootstrapIdentity sampleHost samplePermissionIds (sampleSettings (some 5) none)
      .empty = .ok s ∧
    run (protocol markingProvider).step crossingRequests (.idle ⟨s, [], []⟩) = some s' ∧ Quiescent s' ∧
    s'.committed.issued (1, 62) ≠ [] ∧ ¬ Newest markingProvider s'.committed (1, 62) := by
  have hend : ((bootstrapIdentity sampleHost samplePermissionIds (sampleSettings (some 5) none) .empty).toOption.bind
      fun s => (run (protocol markingProvider).step crossingRequests (.idle ⟨s, [], []⟩)).map fun s' =>
        (s'.committed.issued (1, 62), s'.committed.store.connections.map OAuthConnection.encryptedRefreshToken,
          (List.range 3).all fun i => (s'.running i).isNone)) = some ([0, 18, 14], ["#14"], true) := by
    decide +kernel
  obtain ⟨s, hboot, hrest⟩ := Option.bind_eq_some_iff.mp hend
  obtain ⟨s', hrun, hpair⟩ := Option.map_eq_some_iff.mp hrest
  obtain ⟨hissued, hpair⟩ := Prod.mk.inj hpair
  obtain ⟨hstored, hover⟩ := Prod.mk.inj hpair
  refine ⟨s, s', Fallible.toOption_eq_some.mp hboot, hrun, ?_, ?_, ?_⟩
  · refine quiescent_of_run (n := 3) hrun (fun _ => rfl) (by decide) fun i hi => ?_
    simpa using List.all_eq_true.mp hover i (List.mem_range.mpr hi)
  · rw [hissued]
    exact List.cons_ne_nil _ _
  · rintro ⟨n, hn, hmax, c, hc, -, hdecrypt⟩
    have htext : c.encryptedRefreshToken = "#14" := by
      have hmem := List.mem_map_of_mem (f := OAuthConnection.encryptedRefreshToken) hc
      rwa [hstored, List.mem_singleton] at hmem
    rw [htext] at hdecrypt
    have hn14 : n = 14 := Digits.decimal_inj (String.ofList_injective (Option.some.inj hdecrypt.symm))
    have hle : 18 ≤ n := hmax 18 (hissued ▸ by decide)
    omega

/-- A login and one request for a delegated token. -/
def singleRequest : List (ReadCommitted.Action Start Unit) :=
  [.begin 0 (.callback (sampleLogin 6) "common")] ++ queries 0 ++ [.commit 0, .begin 1 (.token laterHost 1 62 true)] ++
    List.replicate 4 (.statement 1 ()) ++ [.commit 1]

theorem newest_iff_singleRequest : ∃ s s', run (protocol markingProvider).step singleRequest (.idle ⟨s, [], []⟩) =
      some s' ∧ (s'.committed.issued (1, 62)).getLast? = some 13 ∧
    (Newest markingProvider s'.committed (1, 62) ↔ ∀ m ∈ s'.committed.issued (1, 62), m ≤ 13) := by
  have hend : ((bootstrapIdentity sampleHost samplePermissionIds (sampleSettings (some 5) none) .empty).toOption.bind
      fun s => (run (protocol markingProvider).step singleRequest (.idle ⟨s, [], []⟩)).map fun s' =>
        (s'.committed.issued (1, 62)).getLast?) = some (some 13) := by
    decide +kernel
  obtain ⟨s, -, hrest⟩ := Option.bind_eq_some_iff.mp hend
  obtain ⟨s', hrun, hlast⟩ := Option.map_eq_some_iff.mp hrest
  exact ⟨s, s', hrun, hlast, newest_iff lawful_markingProvider hrun hlast⟩

end Sentinel.Identity.Transactions
