import Sentinel.Inventory.Jobs
import Sentinel.Inventory.Stored

/-! What the final status of a job says.

`completed` is committed with the resources, before any of them is posted. A call to the
relationship service that raises after that takes the worker to the same handler as
everything else, which writes `failed` over `completed`; and a handler that raises itself
leaves whatever stood there. In the runs of `run_once` where neither happens the status is
written once and is true (`truthful_iff`); `completed_undone` is a run where a post
fails. -/
namespace Sentinel.Inventory
open Library Common Library.Transition

/-- The committed status of a job. -/
def statusOf (id : Uuid) (s : Store) : Option JobStatus := (s.jobs.find? fun j => j.id = id).map SyncJob.status

/-- The status of a job is left alone, or turns from `running` to a final one. -/
def Settles (id : Uuid) (s s' : Store) : Prop :=
  statusOf id s' = statusOf id s ∨
    statusOf id s = some .running ∧ ∃ status, statusOf id s' = some status ∧ status.final

/-- Every item of the provider's result is stored, and what was to be posted for them is, but
for `rest`. -/
def Delivering (host : Host) (job : SyncJob) (steps : List Step) (s t : Shared) (rest : List Projection) : Prop :=
  ∃ items projections, Step.query (.ok items) ∈ steps ∧
    List.Forall₂ (Delivered host job items t.store) items projections ∧
    t.projected ++ rest = s.projected ++ projections

/-- `run_once`, from its claim to its return, took worker `w` through these steps. -/
structure Truthful (host : Host) (w : Nat) (job : SyncJob) (steps : List Step) (s t : State) : Prop where
  once : EveryStep (step host) (fun s _ t => Settles job.id s.shared.store t.shared.store) (steps.map (.worker w)) s
  final : ∃ status, statusOf job.id t.shared.store = some status ∧ status.final ∧
    ∀ u, Reachable (step host) t u → statusOf job.id u.shared.store = some status
  failed : statusOf job.id t.shared.store = some .failed →
    t.shared.store.resources = s.shared.store.resources ∧
      ∀ row ∈ t.shared.store.jobs, row.id = job.id → row.resourcesSeen = 0
  completed : statusOf job.id t.shared.store = some .completed →
    Delivering host job steps s.shared t.shared [] ∧ t.shared.rebuilt = s.shared.rebuilt ++ [job.tenantId]

/-- An await of one `run_once` after its claim; a crash is none. -/
def Step.inRun : Step → Bool
  | .select _ _ | .commitClaim | .crash => false
  | _ => true

/-- A call to the relationship service raises, or the handler does. -/
def Step.late : Step → Bool
  | .post (some _) | .fail _ (some _) => true
  | _ => false

/-! ### The status of a job -/

theorem statusOf_eq_some {id : Uuid} {s : Store} {status : JobStatus} :
    statusOf id s = some status ↔ ∃ row ∈ s.jobs, row.id = id ∧ row.status = status := by
  unfold statusOf
  rw [Option.map_eq_some_iff]
  refine ⟨?_, ?_⟩
  · intro ⟨row, hrow, hstatus⟩
    exact ⟨row, List.mem_of_find?_eq_some hrow, by simpa using List.find?_some hrow, hstatus⟩
  · intro ⟨row, hrow, hid, hstatus⟩
    exact ⟨row, s.jobIds.find? hrow hid, hstatus⟩

theorem statusOf_congr {id : Uuid} {s s' : Store} (h : s'.jobs = s.jobs) : statusOf id s' = statusOf id s := by
  unfold statusOf
  rw [h]

/-- The status after a write to the job. -/
theorem statusOf_written {s store : Store} {id : Uuid} {f : SyncJob → SyncJob}
    (hf : Store.Keeps SyncJob.id SyncJob.key f) {old status : JobStatus} (hjobs : store.jobs = s.jobs)
    (hold : statusOf id s = some old) (hstatus : ∀ row, (f row).status = status) :
    statusOf id (store.writeJob id f hf) = some status := by
  obtain ⟨row, hrow, hid, -⟩ := statusOf_eq_some.mp hold
  refine statusOf_eq_some.mpr ⟨f row, (mem_writeJob hf).mpr ⟨row, hjobs ▸ hrow, ?_⟩, ?_, hstatus row⟩
  · exact (updateJob_self hid).symm
  · rw [hf.id]
    exact hid

/-! ### Jobs that are over -/

/-- The job is over and nobody has it. -/
structure Over (id : Uuid) (status : JobStatus) (s : State) : Prop where
  inv : Inv s
  status : statusOf id s.shared.store = some status
  released : ∀ phase ∈ s.workers, phase.held ≠ some id

variable {host : Host}

/-- A job that is over stays as it is, whoever steps. -/
theorem Over.step {id : Uuid} {status : JobStatus} (hfinal : status.final) {a : Action} {s t : State}
    (h : Over id status s) (hs : step host a s = some t) : Over id status t := by
  have hinv : Inv t := Inv.step h.inv hs
  cases a with
  | boot =>
    obtain rfl := Option.some.inj hs
    refine ⟨hinv, h.status, fun phase hphase => ?_⟩
    rcases List.mem_append.mp hphase with hphase | hphase
    · exact h.released phase hphase
    · rw [List.mem_singleton.mp hphase]
      exact fun hnone => nomatch hnone
  | enqueue jobId requestedAt r =>
    obtain ⟨store, rfl, hjobs⟩ := enqueue_step hs
    refine ⟨hinv, ?_, h.released⟩
    obtain ⟨row, hrow, hid, hstatus⟩ := statusOf_eq_some.mp h.status
    refine statusOf_eq_some.mpr ⟨row, ?_, hid, hstatus⟩
    rcases hjobs with heq | heq
    · exact heq ▸ hrow
    · exact heq ▸ List.mem_append_left _ hrow
  | worker w a =>
    obtain ⟨phase, phase', shared, hw, hnext, rfl⟩ := worker_step hs
    have hother : phase.held ≠ some id := h.released phase (List.mem_of_getElem? hw)
    -- Who goes on with the same job or none does not take this one.
    have goesOn : ∀ {shared : Shared} {phase' : Phase}, Inv ⟨shared, s.workers.set w phase'⟩ →
        statusOf id shared.store = some status →
        (phase'.held = phase.held ∨ phase'.held = none) → Over id status ⟨shared, s.workers.set w phase'⟩ := by
      intro shared phase' hinv hstatus hheld
      refine ⟨hinv, hstatus, fun x hx => ?_⟩
      rcases List.mem_or_eq_of_mem_set hx with hx | rfl
      · exact h.released x hx
      · rcases hheld with heq | heq
        · rw [heq]
          exact hother
        · rw [heq]
          exact fun hnone => nomatch hnone
    have written : ∀ {store : Store} {other : Uuid} {f : SyncJob → SyncJob}
        (hf : Store.Keeps SyncJob.id SyncJob.key f), store.jobs = s.shared.store.jobs → other ≠ id →
        statusOf id (store.writeJob other f hf) = some status := by
      intro store other f hf hjobs hne
      obtain ⟨row, hrow, hid, hstatus⟩ := statusOf_eq_some.mp h.status
      refine statusOf_eq_some.mpr ⟨row, (mem_writeJob hf).mpr ⟨row, hjobs ▸ hrow, ?_⟩, hid, hstatus⟩
      rw [updateJob_other]
      rw [hid]
      exact hne.symm
    have hown : ∀ job : SyncJob, phase.held = some job.id → job.id ≠ id := fun job hheld heq =>
      hother (hheld.trans (congrArg some heq))
    cases hnext with
    | @select now skipped job hselect =>
      refine ⟨hinv, (statusOf_congr rfl).trans h.status, fun x hx => ?_⟩
      rcases List.mem_or_eq_of_mem_set hx with hx | rfl
      · exact h.released x hx
      · intro hheld
        obtain ⟨hjob, hclaimable, -⟩ := selectJob_some hselect
        have hqueued : statusOf id s.shared.store = some .queued :=
          statusOf_eq_some.mpr ⟨job, hjob, Option.some.inj hheld, hclaimable⟩
        rw [h.status] at hqueued
        cases hqueued
        cases hfinal
    | selectNone | list | listError | registerError | query | queryError | storeError | postError =>
      exact goesOn hinv h.status (.inl rfl)
    | commitClaim => exact goesOn hinv (written (keeps_claim _) rfl (hown _ rfl)) (.inl rfl)
    | register hregister =>
      exact goesOn hinv ((statusOf_congr (register_frame hregister).2.2).trans h.status) (.inl rfl)
    | store hstore => exact goesOn hinv (written (keeps_complete _ _ _) (storeItems_jobs hstore) (hown _ rfl)) (.inl rfl)
    | post => exact goesOn hinv ((statusOf_congr rfl).trans h.status) (.inl rfl)
    | rebuild => exact goesOn hinv ((statusOf_congr rfl).trans h.status) (.inr rfl)
    | fail => exact goesOn hinv (written (keeps_fail _ _) rfl (hown _ rfl)) (.inr rfl)
    | failError | crash => exact goesOn hinv h.status (.inr rfl)

theorem Over.reachable {id : Uuid} {status : JobStatus} (hfinal : status.final) {s t : State} (h : Over id status s)
    (hreach : Reachable (Inventory.step host) s t) : statusOf id t.shared.store = some status :=
  (hreach.invariant h fun _ _ _ hover hs => hover.step hfinal hs).status

/-! ### One run of `run_once` -/

/-- Nothing of the job has been stored. -/
structure Untouched (job : SyncJob) (s u : Shared) : Prop where
  status : statusOf job.id u.store = some .running
  resources : u.store.resources = s.store.resources
  projected : u.projected = s.projected
  rebuilt : u.rebuilt = s.rebuilt

/-- The job failed, and nothing of it was stored. -/
structure FailedClean (job : SyncJob) (s u : Shared) : Prop where
  status : statusOf job.id u.store = some .failed
  resources : u.store.resources = s.store.resources
  seen : ∀ row ∈ u.store.jobs, row.id = job.id → row.resourcesSeen = 0

/-- The job is completed, but for the posts that are left. -/
structure Completed (host : Host) (job : SyncJob) (seen : List Step) (s u : Shared) (rest : List Projection)
    (rebuilt : List Uuid) : Prop where
  status : statusOf job.id u.store = some .completed
  delivering : Delivering host job seen s u rest
  rebuilt : u.rebuilt = s.rebuilt ++ rebuilt

/-- What the steps `seen` of a run from `s` have come to, no post or handler having raised. -/
def Progress (host : Host) (job : SyncJob) (s : Shared) (seen : List Step) (u : Shared) : Phase → Prop
  | .idle => FailedClean job s u ∨ Completed host job seen s u [] [job.tenantId]
  | .claiming _ _ => False
  | .listing j | .registering j _ | .querying j _ | .failing j _ => j = job ∧ Untouched job s u
  | .storing j _ items => j = job ∧ Untouched job s u ∧ Step.query (.ok items) ∈ seen
  | .projecting j rest => j = job ∧ Completed host job seen s u rest []

theorem Untouched.congr {job : SyncJob} {s u u' : Shared} (h : Untouched job s u)
    (hjobs : u'.store.jobs = u.store.jobs) (hresources : u'.store.resources = u.store.resources)
    (hprojected : u'.projected = u.projected) (hrebuilt : u'.rebuilt = u.rebuilt) : Untouched job s u' :=
  ⟨(statusOf_congr hjobs).trans h.status, hresources.trans h.resources, hprojected.trans h.projected,
    hrebuilt.trans h.rebuilt⟩

theorem Delivering.later {job : SyncJob} {seen : List Step} {s u : Shared} {rest : List Projection}
    (h : Delivering host job seen s u rest) (a : Step) : Delivering host job (seen ++ [a]) s u rest := by
  obtain ⟨items, projections, hquery, hdelivered⟩ := h
  exact ⟨items, projections, List.mem_append_left _ hquery, hdelivered⟩

/-- The handler's write, when nothing has been stored. -/
theorem failedClean_of_untouched {job : SyncJob} {s u : Shared} (h : Untouched job s u) (hcount : Uncounted u)
    (error : ErrorSummary) (now : Instant) :
    FailedClean job s {u with store := u.store.writeJob job.id (fail error now) (keeps_fail error now)} where
  status := statusOf_written (keeps_fail error now) rfl h.status fun _ => rfl
  resources := h.resources
  seen := by
    intro row' hrow' hid
    obtain ⟨row, hrow, rfl⟩ := (mem_writeJob (keeps_fail error now)).mp hrow'
    rw [(keeps_updateJob job.id (keeps_fail error now)).id] at hid
    obtain ⟨row₀, hrow₀, hid₀, hrunning⟩ := statusOf_eq_some.mp h.status
    obtain rfl : row₀ = row := u.store.jobIds.eq hrow₀ hrow (hid₀.trans hid.symm)
    rw [updateJob_self hid]
    exact hcount row₀ hrow (by rw [hrunning]; rfl)

/-- The write that says `completed`, after everything was stored. -/
theorem completed_of_untouched {job : SyncJob} {seen : List Step} {s u : Shared} (h : Untouched job s u)
    {session : Session} {subscriptions : List (Uuid × Subscription)} {draws : Nat → Draw} {items : List Json.Object}
    {projections : List Projection} {changed : Nat} {store : Store}
    (hstore : storeItems host session job subscriptions draws items 0 u.store = .ok (projections, changed, store))
    (hquery : Step.query (.ok items) ∈ seen) (now : Instant) :
    Completed host job seen s
      {u with store := store.writeJob job.id (complete items.length changed now) (keeps_complete _ _ now)}
      projections [] where
  status := statusOf_written (keeps_complete _ _ now) (storeItems_jobs hstore) h.status fun _ => rfl
  delivering := by
    have hdelivered := storeItems_delivered hstore
    exact ⟨items, projections, hquery, hdelivered, congrArg (· ++ projections) h.projected⟩
  rebuilt := h.rebuilt.trans (List.append_nil _).symm

/-- One await of the run. -/
theorem progress_step {job : SyncJob} {seen : List Step} {s u u' : Shared} {locked : List Uuid} {a : Step}
    {phase phase' : Phase} (h : Progress host job s seen u phase) (hcount : Uncounted u)
    (hnext : Next host locked u a phase phase' u') (hin : a.inRun) (hlate : a.late = false) :
    Progress host job s (seen ++ [a]) u' phase' ∧ Settles job.id u.store u'.store := by
  cases hnext with
  | select | selectNone | commitClaim | crash => cases hin
  | list | listError => exact ⟨h, .inl rfl⟩
  | register hregister =>
    obtain ⟨-, hresources, hjobs⟩ := register_frame hregister
    exact ⟨⟨h.1, h.2.congr hjobs hresources rfl rfl⟩, .inl (statusOf_congr hjobs)⟩
  | registerError => exact ⟨h, .inl rfl⟩
  | query => exact ⟨⟨h.1, h.2, List.mem_append_right _ (List.mem_singleton_self _)⟩, .inl rfl⟩
  | queryError => exact ⟨h, .inl rfl⟩
  | @store _ _ items draws now projections changed store hstore =>
    obtain ⟨rfl, huntouched, hquery⟩ := h
    have hseen : Step.query (.ok items) ∈ seen ++ [.store draws now none] := List.mem_append_left _ hquery
    have hcompleted := completed_of_untouched huntouched hstore hseen now
    exact ⟨⟨rfl, hcompleted⟩, .inr ⟨huntouched.status, .completed, hcompleted.status, rfl⟩⟩
  | storeError => exact ⟨⟨h.1, h.2.1⟩, .inl rfl⟩
  | @post _ p rest =>
    obtain ⟨rfl, hstatus, ⟨items, projections, hquery, hdelivered, hprojected⟩, hrebuilt⟩ := h
    refine ⟨⟨rfl, hstatus, ⟨items, projections, List.mem_append_left _ hquery, hdelivered, ?_⟩, hrebuilt⟩, .inl rfl⟩
    rw [← hprojected, List.append_assoc, List.singleton_append]
  | rebuild =>
    obtain ⟨rfl, hstatus, hdelivering, hrebuilt⟩ := h
    refine ⟨.inr ⟨hstatus, hdelivering.later _, ?_⟩, .inl rfl⟩
    exact congrArg (· ++ [_]) (hrebuilt.trans (List.append_nil _))
  | postError | failError => cases hlate
  | @fail _ error now =>
    obtain ⟨rfl, huntouched⟩ := h
    have hfailed := failedClean_of_untouched huntouched hcount error now
    exact ⟨.inl hfailed, .inr ⟨huntouched.status, .failed, hfailed.status, rfl⟩⟩

/-- The run is over when the worker is idle. -/
theorem idle_run {w : Nat} {steps : List Step} {s t : State} (hin : ∀ a ∈ steps, a.inRun)
    (hw : s.workers[w]? = some .idle) (hrun : run (step host) (steps.map (.worker w)) s = some t) : steps = [] := by
  cases steps with
  | nil => rfl
  | cons a rest =>
    obtain ⟨u, hu, -⟩ := Option.bind_eq_some_iff.mp hrun
    obtain ⟨phase, phase', shared, hphase, hnext, rfl⟩ := worker_step hu
    obtain rfl := Option.some.inj (hw.symm.trans hphase)
    have ha := hin a (List.mem_cons_self ..)
    cases hnext <;> cases ha

theorem workers_set {s : State} {w : Nat} {phase phase' : Phase} {shared : Shared} (hw : s.workers[w]? = some phase) :
    (⟨shared, s.workers.set w phase'⟩ : State).workers[w]? = some phase' := by
  rw [Parties.getElem?_move hw, if_pos rfl]

/-- The rest of a run where no post or handler raises. -/
theorem progress_run {w : Nat} {job : SyncJob} {s : Shared} {seen steps : List Step} {u t : State} {phase : Phase}
    (hinv : Inv u) (hw : u.workers[w]? = some phase) (h : Progress host job s seen u.shared phase)
    (hin : ∀ a ∈ steps, a.inRun) (hlate : ∀ a ∈ steps, a.late = false)
    (hrun : run (step host) (steps.map (.worker w)) u = some t) (hend : t.workers[w]? = some .idle) :
    Progress host job s (seen ++ steps) t.shared .idle ∧
      EveryStep (step host) (fun s _ t => Settles job.id s.shared.store t.shared.store) (steps.map (.worker w)) u := by
  induction steps generalizing u seen phase with
  | nil =>
    obtain rfl : u = t := Option.some.inj hrun
    obtain rfl := Option.some.inj (hw.symm.trans hend)
    rw [List.append_nil]
    exact ⟨h, trivial⟩
  | cons a rest ih =>
    obtain ⟨u', hu, hrest⟩ := Option.bind_eq_some_iff.mp hrun
    obtain ⟨x, phase', shared, hx, hnext, rfl⟩ := worker_step hu
    obtain rfl := Option.some.inj (hw.symm.trans hx)
    obtain ⟨hprogress, hsettles⟩ := progress_step h hinv.shared hnext (hin a (List.mem_cons_self ..))
      (hlate a (List.mem_cons_self ..))
    obtain ⟨hlast, hevery⟩ := ih (hinv.step hu) (workers_set hw) hprogress
      (fun b hb => hin b (List.mem_cons_of_mem _ hb)) (fun b hb => hlate b (List.mem_cons_of_mem _ hb)) hrest
    rw [List.append_assoc, List.singleton_append] at hlast
    refine ⟨hlast, fun v hv => ?_⟩
    obtain rfl := Option.some.inj (hu.symm.trans hv)
    exact ⟨hsettles, hevery⟩

/-- The rest of a run where one does: the status is written twice, not at all, or says
`completed` of a job whose rebuild was never asked for. -/
theorem late_run {w : Nat} {job : SyncJob} {s : Shared} {seen steps : List Step} {u t : State} {phase : Phase}
    (hinv : Inv u) (hw : u.workers[w]? = some phase) (h : Progress host job s seen u.shared phase)
    (hin : ∀ a ∈ steps, a.inRun) (hlate : ∃ a ∈ steps, a.late)
    (hrun : run (step host) (steps.map (.worker w)) u = some t) (hend : t.workers[w]? = some .idle)
    (honce : EveryStep (step host) (fun s _ t => Settles job.id s.shared.store t.shared.store)
      (steps.map (.worker w)) u) :
    statusOf job.id t.shared.store = some .running ∨
      statusOf job.id t.shared.store = some .completed ∧ t.shared.rebuilt = s.rebuilt := by
  induction steps generalizing u seen phase with
  | nil =>
    obtain ⟨a, ha, -⟩ := hlate
    cases ha
  | cons a rest ih =>
    obtain ⟨u', hu, hrest⟩ := Option.bind_eq_some_iff.mp hrun
    obtain ⟨x, phase', shared, hx, hnext, rfl⟩ := worker_step hu
    obtain rfl := Option.some.inj (hw.symm.trans hx)
    have hin' : ∀ b ∈ rest, b.inRun := fun b hb => hin b (List.mem_cons_of_mem _ hb)
    have honce' := (honce _ hu).2
    by_cases ha : a.late
    · cases hnext with
      | failError =>
        obtain rfl := idle_run hin' (workers_set hw) hrest
        obtain rfl := Option.some.inj hrest
        obtain ⟨rfl, huntouched⟩ := h
        exact .inl huntouched.status
      | @postError _ _ e =>
        obtain ⟨rfl, hstatus, -, hrebuilt⟩ := h
        -- The handler is next.
        cases rest with
        | nil =>
          obtain rfl := Option.some.inj hrest
          cases (workers_set hw).symm.trans hend
        | cons b rest =>
          obtain ⟨v, hv, hlast⟩ := Option.bind_eq_some_iff.mp hrest
          obtain ⟨y, phase'', shared', hy, hnext', rfl⟩ := worker_step hv
          obtain rfl := Option.some.inj ((workers_set hw).symm.trans hy)
          have hidle : ∀ b ∈ rest, b.inRun := fun c hc => hin' c (List.mem_cons_of_mem _ hc)
          cases hnext' with
          | crash => cases hin' .crash (List.mem_cons_self ..)
          | @fail _ _ now =>
            -- It writes `failed` over `completed`.
            have hfailed := statusOf_written (keeps_fail e now) rfl hstatus fun _ => rfl
            rcases (honce' _ hv).1 with hsame | ⟨hrunning, -⟩
            · cases hfailed.symm.trans (hsame.trans hstatus)
            · cases hstatus.symm.trans hrunning
          | failError =>
            obtain rfl := idle_run hidle (workers_set (workers_set hw)) hlast
            obtain rfl := Option.some.inj hlast
            exact .inr ⟨hstatus, hrebuilt.trans (List.append_nil _)⟩
      | _ => cases ha
    · have hprogress := (progress_step h hinv.shared hnext (hin a (List.mem_cons_self ..)) (by simpa using ha)).1
      refine ih (hinv.step hu) (workers_set hw) hprogress hin' ?_ hrest honce'
      obtain ⟨b, hb, hblate⟩ := hlate
      rcases List.mem_cons.mp hb with rfl | hb
      · exact absurd hblate ha
      · exact ⟨b, hb, hblate⟩

/-- The other workers stay where they are. -/
theorem run_others {w v : Nat} {steps : List Step} {s t : State}
    (hrun : run (step host) (steps.map (.worker w)) s = some t) (hv : w ≠ v) : t.workers[v]? = s.workers[v]? := by
  induction steps generalizing s with
  | nil =>
    obtain rfl : s = t := Option.some.inj hrun
    rfl
  | cons a rest ih =>
    obtain ⟨u, hu, hrest⟩ := Option.bind_eq_some_iff.mp hrun
    obtain ⟨phase, phase', shared, hw, -, rfl⟩ := worker_step hu
    rw [ih hrest, Parties.getElem?_move hw, if_neg hv]

theorem inv_reachable {s : State} (h : Reachable (step host) initial s) : Inv s :=
  h.invariant inv_initial fun _ _ _ hinv hs => hinv.step hs

/-- **A final status is final and true** exactly in the runs of `run_once` where no call to the
relationship service raises and the failure handler does not either: the job goes from
`running` to `completed` or `failed` once and for all, `failed` means that the resources are as
they were and none is counted, `completed` that every item is stored and projected and the
rebuild is done. -/
theorem truthful_iff (host : Host) {s t : State} (hreach : Reachable (step host) initial s) {w : Nat} {job : SyncJob}
    (hw : s.workers[w]? = some (.listing job)) {steps : List Step} (hin : ∀ a ∈ steps, a.inRun)
    (hrun : run (step host) (steps.map (.worker w)) s = some t) (hend : t.workers[w]? = some .idle) :
    Truthful host w job steps s t ↔ ∀ a ∈ steps, a.late = false := by
  have hinv : Inv s := inv_reachable hreach
  have hrunning : statusOf job.id s.shared.store = some .running := by
    obtain ⟨row, hrow, hid, hadmits⟩ := hinv.fits w _ hw job.id rfl
    exact statusOf_eq_some.mpr ⟨row, hrow, hid, hadmits⟩
  have hstart : Progress host job s.shared [] s.shared (.listing job) := ⟨rfl, hrunning, rfl, rfl, rfl⟩
  refine ⟨?_, ?_⟩
  · intro h a ha
    by_contra hlate
    rcases late_run hinv hw hstart hin ⟨a, ha, by simpa using hlate⟩ hrun hend h.once with hstatus | ⟨hstatus, hrebuilt⟩
    · obtain ⟨status, hfinal, hover, -⟩ := h.final
      obtain rfl := Option.some.inj (hstatus.symm.trans hfinal)
      cases hover
    · have hdone := (h.completed hstatus).2
      rw [hrebuilt] at hdone
      simp at hdone
  · intro hlate
    obtain ⟨hlast, honce⟩ := progress_run hinv hw hstart hin hlate hrun hend
    rw [List.nil_append] at hlast
    have hinv' : Inv t := by
      obtain ⟨actions, hactions⟩ := hreach
      exact inv_reachable ⟨actions ++ steps.map (.worker w), by rw [run_append, hactions]; exact hrun⟩
    have hover : ∀ status, statusOf job.id t.shared.store = some status → Over job.id status t := by
      intro status hstatus
      refine ⟨hinv', hstatus, fun phase hphase hheld => ?_⟩
      obtain ⟨v, hv⟩ := List.mem_iff_getElem?.mp hphase
      by_cases hvw : w = v
      · subst hvw
        obtain rfl := Option.some.inj (hend.symm.trans hv)
        cases hheld
      · rw [run_others hrun hvw] at hv
        exact hvw (hinv.exclusive w v _ phase job.id hw hv rfl hheld)
    rcases hlast with hfailed | hcompleted
    · refine ⟨honce, ⟨.failed, hfailed.status, rfl, ?_⟩, fun _ => ⟨hfailed.resources, hfailed.seen⟩, ?_⟩
      · exact fun u hu => (hover _ hfailed.status).reachable rfl hu
      · intro hcompleted
        cases hfailed.status.symm.trans hcompleted
    · refine ⟨honce, ⟨.completed, hcompleted.status, rfl, ?_⟩, ?_, fun _ => ⟨hcompleted.delivering, hcompleted.rebuilt⟩⟩
      · exact fun u hu => (hover _ hcompleted.status).reachable rfl hu
      · intro hfailed
        cases hcompleted.status.symm.trans hfailed

/-! ### A post that fails -/

def sampleJob : SyncJob := claim 1 (newJob 7 0 sampleRequest)

def sampleItem : Json.Object where
  members := [("id", .str "/subscriptions/3/vm"), ("subscriptionId", .str (3 : Uuid).str), ("name", .str "vm"),
    ("type", .str "compute")]
  wellFormed := by simp [Json.WellFormed]

def sampleDraws (n : Nat) : Draw := ⟨2, 1, 40 + BitVec.ofNat 128 n, 50 + BitVec.ofNat 128 n⟩

/-- The claimed job up to the provider's result. -/
def sampleQuery : List Step :=
  [.list (.ok [⟨3, "prod", "Enabled"⟩]), .register (fun n => 30 + BitVec.ofNat 128 n) none,
    .query (.ok [sampleItem])]

/-- The claimed job up to the commit that says `completed`, and what comes then. -/
def sampleRun (ending : List Step) : List Step := sampleQuery ++ .store sampleDraws 3 none :: ending

theorem sample_claimed : ∃ s, run (step sampleHost) claimed initial = some s ∧
    s.workers = [.listing sampleJob] ∧ s.shared.store.resources = [] := by
  have hclaimed : (run (step sampleHost) claimed initial).map State.workers = some [.listing sampleJob] := rfl
  obtain ⟨s, hrun, hworkers⟩ := Option.map_eq_some_iff.mp hclaimed
  have hresources : (run (step sampleHost) claimed initial).map (·.shared.store.resources) = some [] := rfl
  rw [hrun] at hresources
  exact ⟨s, hrun, hworkers, Option.some.inj hresources⟩

theorem truthful_iff_posted : ∃ s t, run (step sampleHost) claimed initial = some s ∧
    run (step sampleHost) ((sampleRun [.post none, .post none]).map (.worker 0)) s = some t ∧
      (Truthful sampleHost 0 sampleJob (sampleRun [.post none, .post none]) s t ↔
        ∀ a ∈ sampleRun [.post none, .post none], a.late = false) := by
  have hend : ((run (step sampleHost) claimed initial).bind fun s =>
      (run (step sampleHost) ((sampleRun [.post none, .post none]).map (.worker 0)) s).map State.workers) =
      some [.idle] := by rfl
  obtain ⟨s, hrun, hworkers, -⟩ := sample_claimed
  rw [hrun, Option.bind_some] at hend
  obtain ⟨t, ht, hidle⟩ := Option.map_eq_some_iff.mp hend
  refine ⟨s, t, hrun, ht, truthful_iff sampleHost ⟨claimed, hrun⟩ ?_ ?_ ht ?_⟩
  · rw [hworkers]
    rfl
  · decide
  · rw [hidle]
    rfl

/-- The first post fails: `completed` becomes `failed`, of a job whose resource is stored. -/
theorem completed_undone : ∃ s t, run (step sampleHost) claimed initial = some s ∧
    s.workers = [.listing sampleJob] ∧
    run (step sampleHost)
      ((sampleRun [.post (some ⟨"ConnectError", "connection refused"⟩), .fail 4 none]).map (.worker 0)) s = some t ∧
    ¬ Truthful sampleHost 0 sampleJob
      (sampleRun [.post (some ⟨"ConnectError", "connection refused"⟩), .fail 4 none]) s t := by
  have hend : ((run (step sampleHost) claimed initial).bind fun s => (run (step sampleHost)
      ((sampleRun [.post (some ⟨"ConnectError", "connection refused"⟩), .fail 4 none]).map (.worker 0)) s).map
        fun t => (statusOf 7 t.shared.store, t.shared.store.resources.length)) = some (some .failed, 1) := by
    decide +kernel
  obtain ⟨s, hrun, hworkers, hempty⟩ := sample_claimed
  rw [hrun, Option.bind_some] at hend
  obtain ⟨t, ht, heq⟩ := Option.map_eq_some_iff.mp hend
  obtain ⟨hstatus, hlength⟩ := Prod.mk.inj heq
  refine ⟨s, t, hrun, hworkers, ht, fun h => ?_⟩
  rw [(h.failed hstatus).1, hempty] at hlength
  cases hlength

end Sentinel.Inventory
