import Sentinel.Audit.IngestProofs
import Sentinel.Library.History

/-! Is an event ingested once?

The duplicate check runs before the lock and is not repeated under it, so two deliveries
of one event can both pass it. The second flush then meets the unique constraint, but that
of `schema.sql` has `occurred_at` in it: with another time the row is let in
(`ingested_twice`). An event is ingested once exactly in the runs where no delivery of it
commits between the duplicate check and the commit of another with another time
(`deduplicated_iff`). -/
namespace Sentinel.Audit.Ingest
open Library Library.Transition Library.History Common

/-- At most one row of each table for a tenant and an event id. -/
structure Deduplicated (s : State) : Prop where
  logs : (s.tables.logs.map AuditLog.uqAuditEvent).Nodup
  activity : (s.tables.activity.map ActivityEvent.eventKey).Nodup

/-- Transaction `i` runs its duplicate check. -/
def isCheck (i : Nat) (m : Moment State Action) : Bool :=
  match m.2 with
  | .move j .check => i == j
  | _ => false

/-- The delivery `u` committed its rows after the duplicate check of transaction `i`. -/
def CommittedSince (past : List (Moment State Action)) (i : Nat) (u : Txn) : Prop :=
  ∃ m ∈ since (isCheck i) past, ∃ j log activity, m.2 = .move j .commit ∧ m.1.txns[j]? = some u ∧
    u.phase = .flushed log activity

/-- A delivery that commits its rows has raced none of its event with another time: none has
committed since its duplicate check. -/
def Unraced (host : Host) (h : Remembered State Action) (a : Action) (_ : Remembered State Action) : Prop :=
  ∀ i t log activity, a = .move i .commit → h.now.txns[i]? = some t → t.phase = .flushed log activity →
    ∀ u, CommittedSince h.past i u → (u.event.tenantId, u.event.id) = (t.event.tenantId, t.event.id) →
      u.event.time.timestamp host.localOffset = t.event.time.timestamp host.localOffset

variable {host : Host}

/-- The event key of an activity row, from that of its log row. -/
theorem eventText_injective :
    Function.Injective fun key : Uuid × Uuid => (key.1, some (Uuid.str key.2)) := by
  rintro ⟨tenantId, eventId⟩ ⟨tenantId', eventId'⟩ heq
  obtain ⟨htenant, htext⟩ := Prod.mk.inj heq
  exact Prod.ext htenant (Uuid.str_inj (Option.some.inj htext))

/-- The activity rows repeat an event only where the log rows do. -/
theorem deduplicated_of_logs {s : State} (h : Inv host s)
    (hn : (s.tables.logs.map AuditLog.uqAuditEvent).Nodup) : Deduplicated s := by
  refine ⟨hn, ?_⟩
  rw [h.paired]
  simpa [List.map_map, Function.comp_def, AuditLog.uqAuditEvent] using hn.map eventText_injective

/-- The rows of an event that waits to commit have other times than its own. -/
theorem occurredAt_ne {s : State} (h : Inv host s) {i : Nat} {t : Txn} {log : AuditLog}
    {activity : ActivityEvent} (ht : s.txns[i]? = some t) (hp : t.phase = .flushed log activity)
    {r : AuditLog} (hr : r ∈ s.tables.logs)
    (hkey : r.uqAuditEvent = (t.event.tenantId, t.event.id)) :
    t.event.time.timestamp host.localOffset ≠ some r.occurredAt := by
  obtain ⟨hlog, -, htime, hadmits⟩ := h.flushed ht hp
  intro heq
  have hoccurred : log.occurredAt = r.occurredAt := Option.some.inj (htime.symm.trans heq)
  obtain ⟨htenant, hevent⟩ := Prod.mk.inj (hkey.trans hlog.symm)
  exact (hadmits.1 r hr).2 (by simp [AuditLog.uniqueKey, htenant, hevent, hoccurred])

/-! ### What the past says of the tables -/

/-- The duplicate check found nothing. -/
def Phase.passed : Phase → Bool
  | .unseen | .locked | .chosen _ | .flushed _ _ => true
  | _ => false

/-- The rows of the event are of deliveries that committed since the check of transaction `i`. -/
def Explained (host : Host) (tables : Tables) (past : List (Moment State Action)) (i : Nat) (event : AuditEvent) :
    Prop :=
  ∀ r ∈ tables.logs, r.uqAuditEvent = (event.tenantId, event.id) →
    ∃ u, CommittedSince past i u ∧ (u.event.tenantId, u.event.id) = (event.tenantId, event.id) ∧
      u.event.time.timestamp host.localOffset = some r.occurredAt

structure Watched (host : Host) (h : Remembered State Action) : Prop where
  inv : Inv host h.now
  explained : ∀ i t, h.now.txns[i]? = some t → t.phase.passed → Explained host h.now.tables h.past i t.event
  /-- A delivery that committed has its row. -/
  committed : ∀ m ∈ h.past, ∀ j u log activity, m.2 = .move j .commit → m.1.txns[j]? = some u →
    u.phase = .flushed log activity → ∃ r ∈ h.now.tables.logs, r.uqAuditEvent = (u.event.tenantId, u.event.id)

theorem watched_start : Watched host (start initial) where
  inv := inv_initial
  explained := by simp [start, initial]
  committed := by simp [start]

section Step
variable {s : State} {past : List (Moment State Action)} {a : Action} {i : Nat} {u : Txn} {event : AuditEvent}

theorem CommittedSince.cons {m : Moment State Action} (h : CommittedSince past i u) (hm : isCheck i m = false) :
    CommittedSince (m :: past) i u := by
  obtain ⟨m', hm', hcommit⟩ := h
  exact ⟨m', by rw [since_cons_of_neg hm]; exact List.mem_cons_of_mem _ hm', hcommit⟩

theorem Explained.cons {tables : Tables} (h : Explained host tables past i event) {m : Moment State Action}
    (hm : isCheck i m = false) : Explained host tables (m :: past) i event := by
  intro r hr hkey
  obtain ⟨u, hu, hrow⟩ := h r hr hkey
  exact ⟨u, hu.cons hm, hrow⟩

/-- The check of a transaction is its own. -/
theorem isCheck_of_move {j : Nat} {m : Move} (h : m = .check → i ≠ j) : isCheck i (s, .move j m) = false := by
  cases m with
  | check => exact beq_false_of_ne (h rfl)
  | _ => rfl

/-- A transaction moves on, past its check only if it was, or if there is no row of its event. -/
theorem Watched.advance (h : Watched host ⟨s, past⟩) {j : Nat} {t : Txn} {p : Phase} {m : Move}
    (ht : s.txns[j]? = some t)
    (hpassed : p.passed → m ≠ .check ∧ t.phase.passed ∨
      ∀ r ∈ s.tables.logs, r.uqAuditEvent ≠ (t.event.tenantId, t.event.id))
    (v : Nat) (w : Txn) (hv : (s.advance j t p).txns[v]? = some w) (hw : w.phase.passed) :
    Explained host s.tables ((s, .move j m) :: past) v w.event := by
  rw [getElem?_advance ht] at hv
  split_ifs at hv with hjv
  · subst hjv
    obtain rfl := Option.some.inj hv
    rcases hpassed hw with ⟨hcheck, hbefore⟩ | hnone
    · exact (h.explained j t ht hbefore).cons (isCheck_of_move fun heq => absurd heq hcheck)
    · exact fun r hr hkey => absurd hkey (hnone r hr)
  · exact (h.explained v w hv hw).cons (isCheck_of_move fun _ => Ne.symm hjv)

/-- **Every step keeps what is known of the past.** -/
theorem Watched.step {h h' : Remembered State Action} (hwatched : Watched host h)
    (hstep : remember (step host) a h = some h') : Watched host h' := by
  obtain ⟨s, past⟩ := h
  obtain ⟨s', past'⟩ := h'
  obtain ⟨hs, rfl⟩ : Ingest.step host a s = some s' ∧ past' = (s, a) :: past := remember_eq_some.mp hstep
  refine ⟨hwatched.inv.step hs, ?_, ?_⟩
  · cases next_of_step hs with
    | tick => exact fun i t ht hp => (hwatched.explained i t ht hp).cons rfl
    | start event =>
      intro i t ht hp
      simp only [List.getElem?_append] at ht
      split_ifs at ht
      · exact (hwatched.explained i t ht hp).cons rfl
      · obtain rfl := List.mem_singleton.mp (List.mem_of_getElem? ht)
        cases hp
    | seen ht | confirm ht | rollback ht => exact hwatched.advance ht fun hp => by cases hp
    | @unseen i t ht hp hnone =>
      refine hwatched.advance ht fun _ => .inr fun r hr hkey => ?_
      have hnot := List.find?_eq_none.mp hnone r hr
      exact hnot (decide_eq_true (Prod.mk.inj hkey))
    | lock ht hp | choose ht hp | insert ht hp =>
      exact hwatched.advance ht fun _ => .inl ⟨by simp, by rw [hp]; rfl⟩
    | @commit i t log activity ht hp =>
      intro v w hv hw r hr hkey
      have hexplained : Explained host s.tables ((s, .move i .commit) :: past) v w.event :=
        hwatched.advance ht (fun hp => by cases hp) v w hv hw
      rcases List.mem_append.mp hr with hr | hr
      · exact hexplained r hr hkey
      · -- The row just committed.
        obtain rfl := List.mem_singleton.mp hr
        obtain ⟨hlog, -, htime, -⟩ := hwatched.inv.flushed ht hp
        refine ⟨t, ⟨(s, .move i .commit), ?_, i, r, activity, rfl, ht, hp⟩, hlog.symm.trans hkey, htime⟩
        rw [since_cons_of_neg rfl]
        exact List.mem_cons_self
  · intro m hm j u log activity hcommit hu hflushed
    rcases List.mem_cons.mp hm with rfl | hm
    · obtain rfl : a = .move j .commit := hcommit
      cases next_of_step hs with
      | commit ht hp =>
        obtain rfl := Option.some.inj (ht.symm.trans hu)
        obtain ⟨rfl, rfl⟩ := Phase.flushed.inj (hp.symm.trans hflushed)
        exact ⟨_, List.mem_append_right _ (List.mem_singleton_self _), (hwatched.inv.flushed ht hp).1⟩
      | confirm ht hp =>
        obtain rfl := Option.some.inj (ht.symm.trans hu)
        rw [hp] at hflushed
        cases hflushed
    · obtain ⟨r, hr, hkey⟩ := hwatched.committed m hm j u log activity hcommit hu hflushed
      exact ⟨r, logs_kept hs hr, hkey⟩

end Step

/-! ### Races -/

/-- A step keeps events apart exactly when a delivery that commits finds no row of its event. -/
theorem deduplicated_step_iff {s s' : State} {a : Action} (hinv : Inv host s) (hinv' : Inv host s')
    (hdedup : Deduplicated s) (hs : step host a s = some s') :
    Deduplicated s' ↔ ∀ i t log activity, a = .move i .commit → s.txns[i]? = some t →
      t.phase = .flushed log activity → ∀ r ∈ s.tables.logs, r.uqAuditEvent ≠ (t.event.tenantId, t.event.id) := by
  cases next_of_step hs with
  | @commit i t log activity ht hp =>
    have hkey := (hinv.flushed ht hp).1
    have hlogs : ((s.tables.insert log activity).logs.map AuditLog.uqAuditEvent).Nodup ↔
        ∀ r ∈ s.tables.logs, r.uqAuditEvent ≠ (t.event.tenantId, t.event.id) := by
      have hsnoc : _ ↔ log.uqAuditEvent ∉ s.tables.logs.map AuditLog.uqAuditEvent ∧ _ := Table.unique_snoc
      rw [hkey] at hsnoc
      exact hsnoc.trans (by simp [Table.Unique, hdedup.logs])
    refine ⟨?_, ?_⟩
    · rintro hnext j v log' activity' ⟨⟩ hv -
      obtain rfl := Option.some.inj (ht.symm.trans hv)
      exact hlogs.mp hnext.logs
    · exact fun hnone => deduplicated_of_logs hinv' (hlogs.mpr (hnone i t log activity rfl ht hp))
  | confirm ht hp =>
    refine ⟨fun _ => ?_, fun _ => ⟨hdedup.logs, hdedup.activity⟩⟩
    rintro i t log activity ⟨⟩ ht' hp'
    obtain rfl := Option.some.inj (ht.symm.trans ht')
    rw [hp] at hp'
    cases hp'
  | _ =>
    refine ⟨fun _ => ?_, fun _ => ⟨hdedup.logs, hdedup.activity⟩⟩
    rintro i t log activity ⟨⟩

/-- A step keeps events apart exactly when no delivery that commits in it has raced another of
its event. -/
theorem deduplicated_iff_unraced {h h' : Remembered State Action} {a : Action} (hwatched : Watched host h)
    (hwatched' : Watched host h') (hdedup : Deduplicated h.now) (hstep : remember (step host) a h = some h') :
    Deduplicated h'.now ↔ Unraced host h a h' := by
  have hs := (remember_eq_some.mp hstep).1
  rw [deduplicated_step_iff hwatched.inv hwatched'.inv hdedup hs]
  refine ⟨?_, ?_⟩
  · rintro hnone i t log activity hcommit ht hp u ⟨m, hm, j, log', activity', hcommit', hu, hflushed⟩ hevent
    obtain ⟨r, hr, hrow⟩ := hwatched.committed m ((List.takeWhile_prefix _).subset hm) j u log' activity' hcommit' hu
      hflushed
    exact absurd (hrow.trans hevent) (hnone i t log activity hcommit ht hp r hr)
  · intro hunraced i t log activity hcommit ht hp r hr hevent
    obtain ⟨u, hu, hsame, htime⟩ := hwatched.explained i t ht (by rw [hp]; rfl) r hr hevent
    exact occurredAt_ne hwatched.inv ht hp hr hevent
      ((hunraced i t log activity hcommit ht hp u hu hsame).symm.trans htime)

/-- **An event is ingested at most once** all along a run exactly when no delivery of the run
that commits its rows has raced one of its event with another time past the duplicate
check. -/
theorem deduplicated_iff (actions : List Action) :
    Always (step host) Deduplicated actions initial ↔
      EveryStep (remember (step host)) (Unraced host) actions (start initial) := by
  refine always_remember.symm.trans
    (always_iff_everyStep (I := Watched host) (N := fun _ => True) watched_start ?_ ?_ ?_ ?_)
  · exact ⟨by simp [start, initial], by simp [start, initial]⟩
  · exact Always.of_invariant actions trivial fun _ _ _ _ _ => trivial
  · exact fun _ _ _ hwatched hstep => hwatched.step hstep
  · exact fun _ _ _ hwatched hwatched' _ hdedup hstep => deduplicated_iff_unraced hwatched hwatched' hdedup hstep

/-! ### Two deliveries -/

/-- Two deliveries of event 1 with different times, both past the duplicate check before
either takes the lock. -/
def racingRun : List Action :=
  [.start (syncRequested 1 0), .start (syncRequested 1 5), .move 0 .check, .move 1 .check,
    .move 0 .lock, .move 0 .choose, .move 0 (.insert 10 20), .move 0 .commit,
    .move 1 .lock, .move 1 .choose, .move 1 (.insert 11 21), .move 1 .commit]

theorem ingested_twice : ∃ s, run (step sampleHost) racingRun initial = some s ∧ ¬ Deduplicated s := by
  have htwice : (run (step sampleHost) racingRun initial).any (fun s =>
      ¬ (s.tables.logs.map AuditLog.uqAuditEvent).Nodup) = true := by decide +kernel
  obtain ⟨s, hrun⟩ := Option.isSome_iff_exists.mp (Option.isSome_of_any htwice)
  rw [hrun, Option.any_some, decide_eq_true_eq] at htwice
  exact ⟨s, hrun, fun hdedup => htwice hdedup.logs⟩

end Sentinel.Audit.Ingest
