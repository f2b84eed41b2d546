import Sentinel.Commands.Operations
import Sentinel.Inventory.Rows

/-! One request event a sync job.

The repository answers a repeated key with the job that is there, and the handler enqueues
its event all the same: a second record of the job, with the mode, the count and the actor of
the repetition. The records are one a job, and true, in exactly the runs where no request
commits under a key its tenant has a job of (`jobs_reported_iff`); `reported_twice` is a run
with a repetition. -/
namespace Sentinel.Commands
open Library Library.Table Library.Transition Library.ReadCommitted Common
open Inventory (SyncJob JobRequest)

def syncRequested : String := "inventory.sync-requested.v1"

/-- What the record of a job names. -/
def jobName (j : SyncJob) : Uuid × Option String := (j.tenantId, some j.id.str)

/-- The record says of the job who requested it, its mode, and how many subscriptions it is for. -/
structure Reports (event : AuditEvent) (j : SyncJob) : Prop where
  actorId : event.actorId = j.requestedBy.str
  mode : event.data.get "mode" = some (.str j.mode)
  subscriptionCount : event.data.get "subscription_count" = some (.int j.scope.subscriptionIds.length)

/-- Every job has one record, every record a job, and it reports the job. -/
structure Reported (db : Database) : Prop where
  paired : Paired eventName jobName (db.outbox.events syncRequested) db.inventory.jobs
  truthful : ∀ event ∈ db.outbox.events syncRequested, ∀ j ∈ db.inventory.jobs, eventName event = jobName j →
    Reports event j

/-- The key is new to the tables, if the transaction is a request for a job. -/
def NewKey (db : Database) : Txn → Prop
  | .syncJob r _ _ _ _ => (r.tenantId, r.idempotencyKey) ∉ db.inventory.jobs.map SyncJob.key
  | _ => True

/-- No request commits under the key of a job that is there. -/
def NoRepetition (s : System Database Txn) (a : ReadCommitted.Action Start Unit) (_ : System Database Txn) : Prop :=
  match a with
  | .commit i => ∀ t ∈ s.running i, NewKey s.committed t
  | _ => True

/-! ### What requests have looked up -/

/-- The job a request has looked up is there, or is the request's own. -/
def KnowsJob (db : Database) : Txn → Prop
  | .syncJob r _ _ _ (.looked (.found j)) => j ∈ db.inventory.jobs ∧ j.key = (r.tenantId, r.idempotencyKey)
  | .syncJob r id requestedAt _ (.looked (.fresh j)) => j = Inventory.newJob id requestedAt r
  | _ => True

theorem KnowsJob.grow {db db' : Database} {t : Txn} (h : KnowsJob db t)
    (hgrows : ∀ j ∈ db.inventory.jobs, j ∈ db'.inventory.jobs) : KnowsJob db' t := by
  cases t with
  | syncJob r id requestedAt e stage =>
    cases stage with
    | begun | checked => trivial
    | looked job =>
      cases job with
      | found j => exact ⟨hgrows j h.1, h.2⟩
      | fresh j => exact h
  | _ => trivial

theorem knowsJob_statement {host : Inventory.Host} {db : Database} {t t' : Txn}
    (hs : statement host db t = some t') : KnowsJob db t' := by
  unfold statement at hs
  split at hs
  · obtain ⟨stage, -, rfl⟩ := Option.map_eq_some_iff.mp hs
    trivial
  · cases hs
    trivial
  · cases hs
  · rename_i r id requestedAt e stage
    obtain ⟨stage', hstage, rfl⟩ := Option.map_eq_some_iff.mp hs
    unfold Inventory.requestJob at hstage
    split at hstage
    · split at hstage
      · cases hstage
        trivial
      · cases hstage
    · cases hstage
      cases hfind : Inventory.findJob r.tenantId r.idempotencyKey db.inventory with
      | none => rfl
      | some j => exact ⟨List.mem_of_find?_eq_some hfind, by simpa using List.find?_some hfind⟩
    · cases hstage
  · cases hs
  · obtain ⟨stage, -, rfl⟩ := Option.map_eq_some_iff.mp hs
    trivial

/-! ### What commits do to the jobs -/

theorem writeAllDiscovered_jobs {done : List Inventory.Discovered} {s s' : Inventory.Store}
    (h : Inventory.writeAllDiscovered done s = .ok s') : s'.jobs = s.jobs := by
  induction done generalizing s with
  | nil =>
    cases h
    rfl
  | cons d rest ih =>
    obtain ⟨u, hu, hrest⟩ := Fallible.bind_eq_ok.mp h
    have hd : u.jobs = s.jobs := by
      unfold Inventory.writeDiscovered at hu
      split_ifs at hu
      split at hu
      · exact (Inventory.insertSubscription_rows hu).2.2.2
      · cases hu
        rfl
    exact (ih hrest).trans hd

theorem jobName_unique (s : Inventory.Store) : Unique jobName s.jobs := by
  refine s.jobIds.finer fun j q heq => ?_
  exact Uuid.str_inj (Option.some.inj (congrArg Prod.snd heq))

/-- What a commit does to the jobs and to their records. -/
inductive JobEffect (db : Database) : Txn → Database → Prop
  | none {t : Txn} {db' : Database} (hother : ∀ r id requestedAt e stage, t ≠ .syncJob r id requestedAt e stage)
      (hjobs : db'.inventory.jobs = db.inventory.jobs)
      (hevents : db'.outbox.events syncRequested = db.outbox.events syncRequested) : JobEffect db t db'
  | made {r : JobRequest} {id : Uuid} {requestedAt : Instant} {e : Envelope} {job : SyncJob} {db' : Database}
      (hjobs : db'.inventory.jobs = db.inventory.jobs ++ [job])
      (hevents : db'.outbox.events syncRequested =
        db.outbox.events syncRequested ++ [Inventory.jobRequested r job e]) :
      JobEffect db (.syncJob r id requestedAt e (.looked (.fresh job))) db'
  | repeated {r : JobRequest} {id : Uuid} {requestedAt : Instant} {e : Envelope} {job : SyncJob} {db' : Database}
      (hjobs : db'.inventory.jobs = db.inventory.jobs)
      (hevents : db'.outbox.events syncRequested =
        db.outbox.events syncRequested ++ [Inventory.jobRequested r job e]) :
      JobEffect db (.syncJob r id requestedAt e (.looked (.found job))) db'

theorem jobEffect_of_commits {db db' : Database} {t : Txn} (h : Commits db t db') : JobEffect db t db' := by
  cases h with
  | callback hw ho =>
    refine .none (by simp) rfl ?_
    exact Outbox.events_other ho (by simp [userSynchronized, syncRequested])
  | discover hw => exact .none (by simp) (writeAllDiscovered_jobs hw) rfl
  | @syncJob r id requestedAt e job inventory outbox hw ho =>
    cases job with
    | fresh job =>
      unfold Inventory.writeRequested at hw
      dsimp only at hw
      split_ifs at hw
      exact .made (Inventory.insertJob_rows hw).1 (Outbox.events_same ho rfl)
    | found job =>
      cases hw
      exact .repeated rfl (Outbox.events_same ho rfl)
  | assessment hw ho =>
    refine .none (by simp) rfl ?_
    exact Outbox.events_other ho (by simp [Intelligence.assessmentRequested, syncRequested])
  | replayed => exact .none (by simp) rfl rfl
  | created hw ho =>
    refine .none (by simp) rfl ?_
    exact Outbox.events_other ho (by simp [Operations.operationCreated, syncRequested])

theorem JobEffect.grow {db db' : Database} {t : Txn} (h : JobEffect db t db') :
    ∀ j ∈ db.inventory.jobs, j ∈ db'.inventory.jobs := by
  intro j hj
  cases h with
  | none _ hjobs => exact hjobs ▸ hj
  | made hjobs => exact hjobs ▸ List.mem_append_left _ hj
  | repeated hjobs => exact hjobs ▸ hj

theorem keeps_knowsJob (host : Inventory.Host) :
    Keeps (protocol host) (fun _ => True) (fun _ db t => KnowsJob db t) where
  later := fun _ _ _ h => h
  begin := by
    intro _ _ r _
    cases r <;> trivial
  statement := fun _ _ _ _ _ _ _ hs => knowsJob_statement hs
  commit := fun _ _ _ _ _ _ _ => trivial
  others := fun _ _ _ _ _ _ _ hc hknows => hknows.grow (jobEffect_of_commits (commits_of_commit hc)).grow

/-- The event of a request reports the job the request made. -/
theorem reports_newJob (r : JobRequest) (id : Uuid) (requestedAt : Instant) (e : Envelope) :
    Reports (Inventory.jobRequested r (Inventory.newJob id requestedAt r) e) (Inventory.newJob id requestedAt r) :=
  ⟨rfl, rfl, rfl⟩

/-- What a commit does to the reported jobs. -/
theorem Reported.commit {db db' : Database} {t : Txn} (h : Reported db) (hknows : KnowsJob db t)
    (heffect : JobEffect db t db') :
    Reported db' ↔ NewKey db t := by
  cases heffect with
  | none hother hjobs hevents =>
    refine iff_of_true ⟨?_, ?_⟩ ?_
    · rw [hevents, hjobs]
      exact h.paired
    · rw [hevents, hjobs]
      exact h.truthful
    · cases t with
      | syncJob r id requestedAt e stage => exact absurd rfl (hother r id requestedAt e stage)
      | _ => trivial
  | @made r id requestedAt e job _ hjobs hevents =>
    obtain rfl : job = Inventory.newJob id requestedAt r := hknows
    have hkeys : Unique SyncJob.key (db.inventory.jobs ++ [Inventory.newJob id requestedAt r]) :=
      hjobs ▸ db'.inventory.jobKeys
    refine iff_of_true ?_ (unique_snoc.mp hkeys).1
    have hunique : Unique jobName (db.inventory.jobs ++ [Inventory.newJob id requestedAt r]) :=
      hjobs ▸ jobName_unique db'.inventory
    have hpaired := h.paired.snoc hunique (e := Inventory.jobRequested r (Inventory.newJob id requestedAt r) e) rfl
    refine ⟨?_, ?_⟩
    · rw [hevents, hjobs]
      exact hpaired
    · rw [hevents, hjobs]
      intro event hevent j hj hname
      rcases List.mem_append.mp hevent with hevent | hevent
      · obtain ⟨q, hq, hqname⟩ := h.paired.named event hevent
        obtain rfl : q = j := hunique.eq (List.mem_append_left _ hq) hj (hqname.symm.trans hname)
        exact h.truthful event hevent q hq hqname
      · obtain rfl := List.mem_singleton.mp hevent
        obtain rfl : Inventory.newJob id requestedAt r = j :=
          hunique.eq (List.mem_append_right _ (List.mem_singleton_self _)) hj hname
        exact reports_newJob r id requestedAt e
  | @repeated r id requestedAt e job _ hjobs hevents =>
    refine iff_of_false (fun hafter => ?_) fun hnew => hnew (List.mem_map.mpr ⟨job, hknows⟩)
    have hpaired := hafter.paired
    rw [hevents, hjobs] at hpaired
    have hname : eventName (Inventory.jobRequested r job e) = jobName job :=
      Prod.ext (congrArg Prod.fst hknows.2).symm rfl
    exact h.paired.not_again hknows.1 hname hpaired

/-- What a step does to them. -/
theorem reported_step {host : Inventory.Host} {a : ReadCommitted.Action Start Unit} {s t : System Database Txn}
    (h : Reported s.committed) (hknows : Holds (fun _ => True) (fun _ db t => KnowsJob db t) s)
    (hs : (protocol host).step a s = some t) : Reported t.committed ↔ NoRepetition s a t := by
  cases Protocol.step_cases hs with
  | begin | statement | abort => exact iff_of_true h trivial
  | @commit _ i txn db hi hc =>
    have hcommit := h.commit (hknows.running i txn hi) (jobEffect_of_commits (commits_of_commit hc))
    refine hcommit.trans ⟨?_, fun hnew => hnew txn hi⟩
    intro hnew t ht
    obtain rfl := Option.some.inj (hi.symm.trans ht)
    exact hnew

theorem reported_empty : Reported .empty := ⟨paired_nil, fun _ hevent => nomatch hevent⟩

/-- **Sync jobs are reported** once and truly, all along a run of the commands, exactly if no
request commits in it under a key its tenant has a job of. -/
theorem jobs_reported_iff (host : Inventory.Host) (actions : List (ReadCommitted.Action Start Unit)) :
    Always (protocol host).step (fun s => Reported s.committed) actions (.idle .empty) ↔
      EveryStep (protocol host).step NoRepetition actions (.idle .empty) := by
  refine always_iff_everyStep (I := Holds (fun _ => True) fun _ db t => KnowsJob db t) (N := fun _ => True) ?_
    reported_empty ?_ ?_ ?_
  · exact holds_idle trivial
  · exact Always.of_invariant actions trivial fun _ _ _ _ _ => trivial
  · exact fun _ _ _ h hs => holds_step (keeps_knowsJob host) h hs
  · exact fun _ _ _ hknows _ _ h hs => reported_step h hknows hs

/-! ### A repeated request -/

/-- A request of the actor under the key, with the ids it draws. -/
def sampleStart (actorId : Uuid) (mode : String) (n : Nat) : Start :=
  .syncJob ⟨1, actorId, 5, mode, [3], 4, "nightly-run"⟩ (70 + n) 0
    ⟨80 + n, Datetime.utc 0, 90 + n, 0, 0⟩

/-- A subscription is discovered. -/
def discovery : List (ReadCommitted.Action Start Unit) :=
  [.begin 2 (.discover ⟨1, 5, 2, 4⟩ (fun n => 30 + n) [⟨3, "prod", "Enabled"⟩]), .statement 2 (), .commit 2]

/-- A request for it, and then another actor's for another mode under the same key. -/
def repetition : List (ReadCommitted.Action Start Unit) :=
  discovery ++ [.begin 0 (sampleStart 2 "full" 0), .statement 0 (), .statement 0 (), .commit 0,
    .begin 1 (sampleStart 3 "incremental" 1), .statement 1 (), .statement 1 (), .commit 1]

/-- The second request adds a second record of the one job. -/
theorem reported_twice : ¬ Always (protocol Inventory.sampleHost).step (fun s => Reported s.committed) repetition
    (.idle .empty) := by
  intro h
  have hend : (run (protocol Inventory.sampleHost).step repetition (.idle .empty)).map
      (fun s => (s.committed.inventory.jobs.length, (s.committed.outbox.events syncRequested).length)) =
        some (1, 2) := by decide +kernel
  obtain ⟨s, hrun, heq⟩ := Option.map_eq_some_iff.mp hend
  obtain ⟨hjobs, hevents⟩ := Prod.mk.inj heq
  obtain ⟨j, hj⟩ := List.length_eq_one_iff.mp hjobs
  have hpaired := (h.last hrun).paired
  have hall : ∀ event ∈ s.committed.outbox.events syncRequested, eventName event = jobName j := by
    intro event hevent
    obtain ⟨q, hq, hname⟩ := hpaired.named event hevent
    rw [hj] at hq
    rwa [List.mem_singleton.mp hq] at hname
  have hone := hpaired.one j (by simp [hj])
  rw [List.filter_eq_self.mpr fun event hevent => by simpa using hall event hevent, hevents] at hone
  cases hone

end Sentinel.Commands
