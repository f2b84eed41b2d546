import Sentinel.Audit.Ingest
import Sentinel.Library.Table

/-! What holds in every reachable state of the ingest transactions.

Two facts carry the rest. Transactions of one tenant exclude each other from the lock to
the end (`exclusive`), so what a transaction read under the lock is still so when it
commits (`current`). And a flushed pair of rows shares no key with a committed or another
flushed pair (`current`, `apart`), so the commit keeps the constraints of `schema.sql`. -/
namespace Sentinel.Audit.Ingest
open Library Library.Transition Common

/-- The row is what `ingest` wrote for some event, its hash taken over a listed text. -/
def Written (hashed : List (List Char)) (r : AuditLog) : Prop :=
  ∃ event : AuditEvent, (canonical event r.previousHash).text ∈ hashed ∧
    r.recordHash = (canonical event r.previousHash).recordHash ∧
    r.uqAuditEvent = (event.tenantId, event.id)

/-- What a transaction knows under the lock. -/
def Current (host : Host) (s : State) (t : Txn) : Prop :=
  match t.phase with
  | .chosen previousHash => previousHash = s.tip t.event.tenantId
  | .flushed log activity =>
    (∃ id activityId, ingestRows host t.event (s.tip t.event.tenantId) id activityId t.now =
      some (log, activity)) ∧
    (canonical t.event (s.tip t.event.tenantId)).text ∈ s.hashed ∧ Admits s.tables log activity
  | _ => True

structure Inv (host : Host) (s : State) : Prop where
  exclusive : ∀ (i j : Nat) (t u : Txn), s.txns[i]? = some t → s.txns[j]? = some u →
    t.phase.holds → u.phase.holds → lockKey host t.event = lockKey host u.event → i = j
  current : ∀ (i : Nat) (t : Txn), s.txns[i]? = some t → Current host s t
  apart : ∀ (i j : Nat) (t u : Txn) log activity, s.txns[i]? = some t → s.txns[j]? = some u → i ≠ j →
    t.phase = .flushed log activity → Apart log activity u.phase
  written : ∀ r ∈ s.tables.logs, Written s.hashed r
  grown : ∀ tenantId, HashChain.Grown AuditLog.previousHash AuditLog.recordHash
    (ofTenant tenantId s.tables.logs)
  paired : s.tables.activity.map ActivityEvent.eventKey =
    s.tables.logs.map fun r => (r.tenantId, some r.eventId.str)
  unique : (s.tables.logs.map AuditLog.uniqueKey).Nodup

variable {host : Host}

theorem inv_initial : Inv host initial where
  exclusive := by simp [initial]
  current := by simp [initial]
  apart := by simp [initial]
  written := by simp [initial]
  grown := by
    intro tenantId init r rest h
    simp [initial, ofTenant] at h
  paired := rfl
  unique := by simp [initial]

/-! ### Lemmas about single phases -/

theorem apart_comm {log log' : AuditLog} {activity activity' : ActivityEvent} :
    Apart log activity (.flushed log' activity') ↔ Apart log' activity' (.flushed log activity) := by
  simp only [Apart, ne_eq, eq_comm]

theorem apart_of_not_holds {log : AuditLog} {activity : ActivityEvent} {p : Phase}
    (h : p.holds = false) : Apart log activity p := by
  cases p with
  | flushed log' activity' => simp [Phase.holds] at h
  | _ => trivial

theorem current_of_not_holds {s : State} {t : Txn} (h : t.phase.holds = false) : Current host s t := by
  unfold Current
  split <;> simp_all [Phase.holds]

theorem Written.mono {hashed : List (List Char)} {r : AuditLog} (h : Written hashed r)
    (text : List Char) : Written (text :: hashed) r := by
  obtain ⟨event, htext, hhash, hkey⟩ := h
  exact ⟨event, List.mem_cons_of_mem _ htext, hhash, hkey⟩

theorem getElem?_advance {s : State} {i j : Nat} {t : Txn} {p : Phase} (ht : s.txns[i]? = some t) :
    (s.advance i t p).txns[j]? = if i = j then some {t with phase := p} else s.txns[j]? := by
  have hi : i < s.txns.length := (List.getElem?_eq_some_iff.mp ht).1
  simp only [State.advance, List.getElem?_set]
  split_ifs with h
  · rfl
  · rfl

/-- The hash a row is chained to is that of a row of the tenant, or none. -/
theorem extends_tip (s : State) (tenantId : Uuid) (r : AuditLog)
    (h : r.previousHash = s.tip tenantId) :
    HashChain.Extends AuditLog.previousHash AuditLog.recordHash (ofTenant tenantId s.tables.logs) r := by
  unfold State.tip at h
  cases hp : previous s.tables.logs tenantId with
  | none => exact .inl ⟨Query.first_eq_none.mp hp, by rw [h, hp]; rfl⟩
  | some p => exact .inr ⟨p, Query.mem_of_first hp, by rw [h, hp]; rfl⟩

/-- A row of another tenant does not move the tip. -/
theorem tip_insert {s : State} {log : AuditLog} {activity : ActivityEvent} {tenantId : Uuid}
    (h : log.tenantId ≠ tenantId) :
    State.tip {s with tables := s.tables.insert log activity} tenantId = s.tip tenantId := by
  simp [State.tip, previous, Tables.insert, ofTenant_singleton, h]

/-! ### One step -/

/-- A transaction moves on without touching the tables. -/
theorem Inv.advance {s : State} (h : Inv host s) {i : Nat} {t : Txn} {p : Phase}
    (ht : s.txns[i]? = some t)
    (hlock : p.holds → t.phase.holds ∨ LockFree host s t.event)
    (hcurrent : Current host s {t with phase := p})
    (hapart : ∀ log activity, p = .flushed log activity → ∀ u ∈ s.txns, Apart log activity u.phase) :
    Inv host (s.advance i t p) where
  exclusive := by
    have once : ∀ j u, s.txns[j]? = some u → p.holds → u.phase.holds →
        lockKey host t.event = lockKey host u.event → i = j := by
      intro j u hu hp hheld hkey
      rcases hlock hp with hheld' | hfree
      · exact h.exclusive i j t u ht hu hheld' hheld hkey
      · exact absurd hkey.symm (hfree u (List.mem_of_getElem? hu) hheld)
    intro j k u v hu hv hhu hhv hkey
    rw [getElem?_advance ht] at hu hv
    split_ifs at hu hv with hj hk hk
    · omega
    · obtain rfl := Option.some.inj hu
      exact hj ▸ once k v hv hhu hhv hkey
    · obtain rfl := Option.some.inj hv
      exact hk ▸ (once j u hu hhv hhu hkey.symm).symm
    · exact h.exclusive j k u v hu hv hhu hhv hkey
  current := by
    intro j u hu
    rw [getElem?_advance ht] at hu
    split_ifs at hu with hj
    · obtain rfl := Option.some.inj hu
      exact hcurrent
    · exact h.current j u hu
  apart := by
    intro j k u v log activity hu hv hjk hflushed
    rw [getElem?_advance ht] at hu hv
    split_ifs at hu hv with hj hk hk
    · omega
    · obtain rfl := Option.some.inj hu
      exact hapart log activity hflushed v (List.mem_of_getElem? hv)
    · obtain rfl := Option.some.inj hv
      cases p with
      | flushed log' activity' =>
        have := hapart log' activity' rfl u (List.mem_of_getElem? hu)
        rw [hflushed] at this
        exact apart_comm.mp this
      | _ => trivial
    · exact h.apart j k u v log activity hu hv hjk hflushed
  written := h.written
  grown := h.grown
  paired := h.paired
  unique := h.unique

theorem Inv.hash {s : State} (h : Inv host s) (text : List Char) :
    Inv host {s with hashed := text :: s.hashed} where
  exclusive := h.exclusive
  current := by
    intro i t ht
    have := h.current i t ht
    unfold Current at *
    split at this <;> simp_all [State.tip]
  apart := h.apart
  written := fun r hr => (h.written r hr).mono text
  grown := h.grown
  paired := h.paired
  unique := h.unique

theorem Inv.start {s : State} (h : Inv host s) (event : AuditEvent) :
    Inv host {s with txns := s.txns ++ [⟨event, s.clock, .begun⟩]} := by
  -- The new transaction holds nothing and has flushed nothing.
  have old : ∀ {j : Nat} {u : Txn}, (s.txns ++ [⟨event, s.clock, .begun⟩])[j]? = some u →
      s.txns[j]? = some u ∨ u.phase = .begun := by
    intro j u hu
    rw [List.getElem?_append] at hu
    split_ifs at hu with hj
    · exact .inl hu
    · obtain rfl := List.mem_singleton.mp (List.mem_of_getElem? hu)
      exact .inr rfl
  exact
    { exclusive := by
        intro i j t u ht hu hht hhu hkey
        rcases old ht with ht | hp
        · rcases old hu with hu | hp
          · exact h.exclusive i j t u ht hu hht hhu hkey
          · simp [hp, Phase.holds] at hhu
        · simp [hp, Phase.holds] at hht
      current := by
        intro i t ht
        rcases old ht with ht | hp
        · exact h.current i t ht
        · exact current_of_not_holds (by rw [hp]; rfl)
      apart := by
        intro i j t u log activity ht hu hij hflushed
        rcases old ht with ht | hp
        · rcases old hu with hu | hp
          · exact h.apart i j t u log activity ht hu hij hflushed
          · exact apart_of_not_holds (by rw [hp]; rfl)
        · rw [hp] at hflushed
          cases hflushed
      written := h.written
      grown := h.grown
      paired := h.paired
      unique := h.unique }

/-- Two rows enter the tables, while no transaction holds the lock of their tenant. -/
theorem Inv.insert {s : State} (h : Inv host s) {event : AuditEvent} {log : AuditLog}
    {activity : ActivityEvent} {id activityId : Uuid} {now : Instant}
    (hrows : ingestRows host event (s.tip event.tenantId) id activityId now = some (log, activity))
    (htext : (canonical event (s.tip event.tenantId)).text ∈ s.hashed)
    (hadmits : Admits s.tables log activity) (hfree : LockFree host s event)
    (hapart : ∀ u ∈ s.txns, Apart log activity u.phase) :
    Inv host {s with tables := s.tables.insert log activity} := by
  obtain ⟨-, user, occurredAt, -, -, hlog, hactivity⟩ := ingestRows_eq_some.mp hrows
  have htenant : log.tenantId = event.tenantId := by rw [hlog]; rfl
  have hprevious : log.previousHash = s.tip event.tenantId := by rw [hlog]; rfl
  have other : ∀ u ∈ s.txns, u.phase.holds → log.tenantId ≠ u.event.tenantId := by
    intro u hu hheld heq
    apply hfree u hu hheld
    rw [lockKey, lockKey, ← heq, htenant]
  exact
    { exclusive := h.exclusive
      current := by
        intro i t ht
        by_cases hheld : t.phase.holds
        · have hold := h.current i t ht
          have hother := other t (List.mem_of_getElem? ht) hheld
          have hap := hapart t (List.mem_of_getElem? ht)
          cases hp : t.phase with
          | chosen previousHash =>
            simp only [Current, hp] at hold ⊢
            rw [hold, tip_insert hother]
          | flushed log' activity' =>
            simp only [Current, hp, Apart, tip_insert hother] at hold hap ⊢
            refine ⟨hold.1, hold.2.1, ?_, ?_⟩
            · intro r hr
              rcases List.mem_append.mp hr with hr | hr
              · exact hold.2.2.1 r hr
              · obtain rfl := List.mem_singleton.mp hr
                exact ⟨hap.1.symm, hap.2.1.symm⟩
            · intro a ha
              rcases List.mem_append.mp ha with ha | ha
              · exact hold.2.2.2 a ha
              · obtain rfl := List.mem_singleton.mp ha
                exact hap.2.2.symm
          | _ => simp [Current, hp]
        · exact current_of_not_holds (by simpa using hheld)
      apart := h.apart
      written := by
        intro r hr
        rcases List.mem_append.mp hr with hr | hr
        · exact h.written r hr
        · obtain rfl := List.mem_singleton.mp hr
          refine ⟨event, by rw [hprevious]; exact htext, ?_, ?_⟩
          · rw [hprevious, hlog]
            rfl
          · rw [hlog]
            rfl
      grown := by
        intro tenantId
        simp only [Tables.insert, ofTenant_append, ofTenant_singleton]
        split_ifs with heq
        · rw [HashChain.grown_snoc]
          refine ⟨h.grown tenantId, extends_tip s tenantId log ?_⟩
          rw [hprevious, ← htenant, heq]
        · simpa using h.grown tenantId
      paired := by
        simp only [Tables.insert, List.map_append, h.paired, List.map_singleton, hlog, hactivity]
        rfl
      unique := Table.Unique.snoc h.unique fun r hr => (hadmits.1 r hr).2 }

/-- **Every step keeps the invariant.** -/
theorem Inv.step {a : Action} {s s' : State} (h : Inv host s) (hs : step host a s = some s') :
    Inv host s' := by
  have quiet : ∀ {i : Nat} {t : Txn} {p : Phase}, s.txns[i]? = some t → p.holds = false →
      Inv host (s.advance i t p) := by
    intro i t p ht hp
    refine h.advance ht (by simp [hp]) (current_of_not_holds hp) ?_
    rintro log activity rfl
    simp [Phase.holds] at hp
  cases next_of_step hs with
  | tick time => exact ⟨h.exclusive, h.current, h.apart, h.written, h.grown, h.paired, h.unique⟩
  | start event => exact h.start event
  | seen ht hp hrow => exact quiet ht rfl
  | unseen ht hp hnone => exact quiet ht rfl
  | lock ht hp hfree => exact h.advance ht (fun _ => .inr hfree) trivial (by simp)
  | choose ht hp => exact h.advance ht (fun _ => .inl (by rw [hp]; rfl)) rfl (by simp)
  | confirm ht hp => exact quiet ht rfl
  | rollback ht hp => exact quiet ht rfl
  | @insert i t previousHash id activityId log activity ht hp hrows hadmits hapart =>
    have hcurrent : previousHash = s.tip t.event.tenantId := by
      have := h.current i t ht
      rwa [Current, hp] at this
    subst hcurrent
    refine (h.hash _).advance ht (fun _ => .inl (by rw [hp]; rfl)) ?_ ?_
    · exact ⟨⟨id, activityId, hrows⟩, List.mem_cons_self, hadmits⟩
    · rintro log' activity' ⟨⟩
      exact hapart
  | @commit i t log activity ht hp =>
    have hcurrent := h.current i t ht
    rw [Current, hp] at hcurrent
    obtain ⟨⟨id, activityId, hrows⟩, htext, hadmits⟩ := hcurrent
    refine (quiet (p := .committed log) ht rfl).insert hrows htext hadmits ?_ ?_
    · -- The transaction itself has let the lock go, and nobody else holds it.
      intro u hu hheld hkey
      obtain ⟨j, hj⟩ := List.mem_iff_getElem?.mp hu
      rw [getElem?_advance ht] at hj
      split_ifs at hj with hij
      · obtain rfl := Option.some.inj hj
        simp [Phase.holds] at hheld
      · exact hij (h.exclusive i j t u ht hj (by rw [hp]; rfl) hheld hkey.symm)
    · intro u hu
      obtain ⟨j, hj⟩ := List.mem_iff_getElem?.mp hu
      rw [getElem?_advance ht] at hj
      split_ifs at hj with hij
      · obtain rfl := Option.some.inj hj
        trivial
      · exact h.apart i j t u log activity ht hj hij hp

theorem inv_reachable {s : State} (h : Reachable (Ingest.step host) initial s) : Inv host s :=
  h.invariant inv_initial fun _ _ _ hinv hs => hinv.step hs

/-! ### What `ingest` returns -/

/-- The row a transaction answers with is a committed row of its event. -/
def Answered (s : State) (t : Txn) : Prop :=
  match t.phase with
  | .seen row | .committed row =>
    row ∈ s.tables.logs ∧ row.uqAuditEvent = (t.event.tenantId, t.event.id)
  | _ => True

/-- Committed rows stay. -/
theorem logs_kept {a : Action} {s s' : State} (hs : step host a s = some s') {r : AuditLog}
    (hr : r ∈ s.tables.logs) : r ∈ s'.tables.logs := by
  cases next_of_step hs with
  | commit ht hp => exact List.mem_append_left _ hr
  | _ => exact hr

/-- A committed row was there before, or is the one a transaction had flushed. -/
theorem log_of_step {a : Action} {s s' : State} (hs : step host a s = some s') {r : AuditLog}
    (hr : r ∈ s'.tables.logs) : r ∈ s.tables.logs ∨ ∃ (i : Nat) (t : Txn) (activity : ActivityEvent),
      s.txns[i]? = some t ∧ t.phase = .flushed r activity := by
  cases next_of_step hs with
  | commit ht hp =>
    rcases List.mem_append.mp hr with hr | hr
    · exact .inl hr
    · obtain rfl := List.mem_singleton.mp hr
      exact .inr ⟨_, _, _, ht, hp⟩
  | _ => exact .inl hr

/-- A transaction keeps its event. -/
theorem event_kept {a : Action} {s s' : State} (hs : step host a s = some s') {i : Nat} {t : Txn}
    (ht : s.txns[i]? = some t) : ∃ t', s'.txns[i]? = some t' ∧ t'.event = t.event := by
  have kept : ∀ {j : Nat} {u : Txn} {p : Phase}, s.txns[j]? = some u →
      ∃ t', (s.advance j u p).txns[i]? = some t' ∧ t'.event = t.event := by
    intro j u p hu
    rw [getElem?_advance hu]
    split_ifs with hji
    · subst hji
      obtain rfl := Option.some.inj (ht.symm.trans hu)
      exact ⟨_, rfl, rfl⟩
    · exact ⟨t, ht, rfl⟩
  cases next_of_step hs with
  | tick time => exact ⟨t, ht, rfl⟩
  | start event =>
    have hlt : i < s.txns.length := (List.getElem?_eq_some_iff.mp ht).1
    exact ⟨t, by simp only [List.getElem?_append_left hlt, ht], rfl⟩
  | seen hu | unseen hu | lock hu | choose hu | insert hu | commit hu | confirm hu | rollback hu =>
    exact kept hu

/-- Every transaction was there before, or is the one that starts. -/
theorem event_of_step {a : Action} {s s' : State} (hs : step host a s = some s') {i : Nat} {t' : Txn}
    (ht' : s'.txns[i]? = some t') :
    (∃ t, s.txns[i]? = some t ∧ t'.event = t.event) ∨ a = .start t'.event := by
  have before : ∀ {j : Nat} {u : Txn} {p : Phase}, s.txns[j]? = some u →
      (s.advance j u p).txns[i]? = some t' → ∃ t, s.txns[i]? = some t ∧ t'.event = t.event := by
    intro j u p hu h
    rw [getElem?_advance hu] at h
    split_ifs at h with hji
    · subst hji
      obtain rfl := Option.some.inj h
      exact ⟨u, hu, rfl⟩
    · exact ⟨t', h, rfl⟩
  cases next_of_step hs with
  | tick time => exact .inl ⟨t', ht', rfl⟩
  | start event =>
    simp only [List.getElem?_append] at ht'
    split_ifs at ht' with hlt
    · exact .inl ⟨t', ht', rfl⟩
    · obtain rfl := List.mem_singleton.mp (List.mem_of_getElem? ht')
      exact .inr rfl
  | seen hu | unseen hu | lock hu | choose hu | insert hu | commit hu | confirm hu | rollback hu =>
    exact .inl (before hu ht')

/-- The rows of a flushed transaction, as they were built. -/
theorem Inv.flushed {s : State} (h : Inv host s) {i : Nat} {t : Txn} {log : AuditLog}
    {activity : ActivityEvent} (ht : s.txns[i]? = some t) (hp : t.phase = .flushed log activity) :
    log.uqAuditEvent = (t.event.tenantId, t.event.id) ∧
      log.previousHash = s.tip t.event.tenantId ∧
      t.event.time.timestamp host.localOffset = some log.occurredAt ∧
      Admits s.tables log activity := by
  have hcurrent := h.current i t ht
  rw [Current, hp] at hcurrent
  obtain ⟨⟨id, activityId, hrows⟩, -, hadmits⟩ := hcurrent
  obtain ⟨-, user, occurredAt, -, htime, rfl, -⟩ := ingestRows_eq_some.mp hrows
  exact ⟨rfl, rfl, htime, hadmits⟩

theorem answered_step {a : Action} {s s' : State} (h : Inv host s)
    (ha : ∀ (i : Nat) (t : Txn), s.txns[i]? = some t → Answered s t) (hs : step host a s = some s') :
    ∀ (i : Nat) (t : Txn), s'.txns[i]? = some t → Answered s' t := by
  -- An answer given before still stands: the tables only grow.
  have still : ∀ {t : Txn}, Answered s t → Answered s' t := by
    intro t ht
    unfold Answered at *
    split at ht <;> simp_all [logs_kept hs]
  have moved : ∀ {j : Nat} {u : Txn} {p : Phase}, s.txns[j]? = some u →
      Answered s' {u with phase := p} → ∀ (i : Nat) (t : Txn),
      (s.advance j u p).txns[i]? = some t → Answered s' t := by
    intro j u p hu hanswered i t ht
    rw [getElem?_advance hu] at ht
    split_ifs at ht with hji
    · obtain rfl := Option.some.inj ht
      exact hanswered
    · exact still (ha i t ht)
  cases next_of_step hs with
  | tick time => exact fun i t ht => still (ha i t ht)
  | start event =>
    intro i t ht
    simp only [List.getElem?_append] at ht
    split_ifs at ht with hlt
    · exact still (ha i t ht)
    · obtain rfl := List.mem_singleton.mp (List.mem_of_getElem? ht)
      trivial
  | seen hu hp hrow => exact moved hu (existing_eq_some hrow)
  | commit hu hp =>
    exact moved hu ⟨List.mem_append_right _ (List.mem_singleton_self _), (h.flushed hu hp).1⟩
  | @confirm i t row hu hp =>
    have hanswered := ha i t hu
    rw [Answered, hp] at hanswered
    exact moved hu hanswered
  | unseen hu | lock hu | choose hu | insert hu | rollback hu => exact moved hu trivial

end Sentinel.Audit.Ingest
