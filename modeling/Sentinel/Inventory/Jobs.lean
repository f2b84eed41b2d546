import Sentinel.Inventory.Rows
import Sentinel.Library.Parties

/-! Who executes a job, and who may take it over.

The lock of a claim and the status `running` keep a job to one worker, whatever the others
do. Nothing brings a job back, though: `claim_job` selects by `queued` alone, so a worker
that stops before it has written a final status leaves its job `running` for good. The jobs
are recoverable in exactly the runs where none does (`recoverable_iff`); `abandoned` is a run
where one crashes. -/
namespace Sentinel.Inventory
open Library Common Library.Transition

/-- The job a worker has claimed or is claiming. -/
def Phase.held : Phase → Option Uuid
  | .claiming job _ => some job.id
  | phase => phase.job.map SyncJob.id

/-- What the row of the job says meanwhile. -/
def Phase.admits : Phase → JobStatus → Prop
  | .idle, _ => True
  | .claiming _ _, status => status = .queued
  | .listing _, status | .registering _ _, status | .querying _ _, status | .storing _ _ _, status => status = .running
  | .projecting _ _, status => status = .completed
  | .failing _ _, status => status = .running ∨ status = .completed

/-- What a worker relies on. -/
def Fits (s : Shared) (phase : Phase) : Prop :=
  ∀ id, phase.held = some id → ∃ row ∈ s.store.jobs, row.id = id ∧ phase.admits row.status

/-- Nothing has been counted for a job that is not over. -/
def Uncounted (s : Shared) : Prop := ∀ row ∈ s.store.jobs, row.status.final = false → row.resourcesSeen = 0

abbrev Inv (s : State) : Prop := Parties.Holds Uncounted Fits Phase.held s.shared s.workers

theorem held_of_job {phase : Phase} {job : SyncJob} (h : phase.job = some job) : phase.held = some job.id := by
  cases phase <;> cases h <;> rfl

/-! ### Writes to a job -/

theorem mem_writeJob {s : Store} {id : Uuid} {f : SyncJob → SyncJob} (hf : Store.Keeps SyncJob.id SyncJob.key f)
    {row' : SyncJob} : row' ∈ (s.writeJob id f hf).jobs ↔ ∃ row ∈ s.jobs, row' = updateJob id f row := by
  simp [Store.writeJob, Store.updateJobs, eq_comm]

theorem updateJob_self {f : SyncJob → SyncJob} {row : SyncJob} {id : Uuid} (h : row.id = id) :
    updateJob id f row = f row := if_pos h

theorem updateJob_other {f : SyncJob → SyncJob} {row : SyncJob} {id : Uuid} (h : row.id ≠ id) :
    updateJob id f row = row := if_neg h

/-- A worker that holds another job does not notice a write. -/
theorem Fits.write {s : Shared} {phase : Phase} (h : Fits s phase) {store : Store} {id : Uuid}
    {f : SyncJob → SyncJob} {hf : Store.Keeps SyncJob.id SyncJob.key f} (hjobs : store.jobs = s.store.jobs)
    (hother : phase.held ≠ some id) : Fits {s with store := store.writeJob id f hf} phase := by
  intro held hheld
  obtain ⟨row, hrow, hid, hadmits⟩ := h held hheld
  refine ⟨row, (mem_writeJob hf).mpr ⟨row, hjobs ▸ hrow, ?_⟩, hid, hadmits⟩
  rw [updateJob_other]
  intro heq
  exact hother (hheld.trans (congrArg some (hid.symm.trans heq)))

/-- Nor does one whose jobs are the same rows. -/
theorem Fits.congr {s s' : Shared} {phase phase' : Phase} (h : Fits s phase)
    (hjobs : s'.store.jobs = s.store.jobs) (hheld : phase'.held = phase.held)
    (hadmits : ∀ status, phase.admits status → phase'.admits status) : Fits s' phase' := by
  intro id hid
  obtain ⟨row, hrow, hrowId, hstatus⟩ := h id (hheld ▸ hid)
  exact ⟨row, hjobs ▸ hrow, hrowId, hadmits _ hstatus⟩

theorem fits_idle (s : Shared) : Fits s .idle := fun _ h => nomatch h

/-- The row of a worker's job after the worker wrote it. -/
theorem fits_written {s : Shared} {phase phase' : Phase} {store : Store} {job : SyncJob} {f : SyncJob → SyncJob}
    {hf : Store.Keeps SyncJob.id SyncJob.key f} (h : Fits s phase) (hheld : phase.held = some job.id)
    (hjobs : store.jobs = s.store.jobs) (hheld' : phase'.held = some job.id)
    (hadmits : ∀ row, phase'.admits (f row).status) :
    Fits {s with store := store.writeJob job.id f hf} phase' := by
  intro id hid
  obtain rfl := Option.some.inj (hheld'.symm.trans hid)
  obtain ⟨row, hrow, hrowId, -⟩ := h job.id hheld
  refine ⟨f row, (mem_writeJob hf).mpr ⟨row, hjobs ▸ hrow, (updateJob_self hrowId).symm⟩, ?_, hadmits row⟩
  rw [hf.id]
  exact hrowId

theorem Uncounted.write {s : Shared} (h : Uncounted s) {store : Store} {id : Uuid} {f : SyncJob → SyncJob}
    {hf : Store.Keeps SyncJob.id SyncJob.key f} (hjobs : store.jobs = s.store.jobs)
    (hcount : ∀ row ∈ s.store.jobs, row.id = id → (f row).status.final = false → (f row).resourcesSeen = 0) :
    Uncounted {s with store := store.writeJob id f hf} := by
  intro row' hrow' hfinal
  obtain ⟨row, hrow, rfl⟩ := (mem_writeJob hf).mp hrow'
  rw [hjobs] at hrow
  by_cases hid : row.id = id
  · rw [updateJob_self hid] at hfinal ⊢
    exact hcount row hrow hid hfinal
  · rw [updateJob_other hid] at hfinal ⊢
    exact h row hrow hfinal

/-- The row a worker relies on is the only one with its id. -/
theorem Fits.row {s : Shared} {phase : Phase} {id : Uuid} (h : Fits s phase) (hheld : phase.held = some id)
    {row : SyncJob} (hrow : row ∈ s.store.jobs) (hid : row.id = id) : phase.admits row.status := by
  obtain ⟨row', hrow', hid', hadmits⟩ := h id hheld
  obtain rfl : row' = row := s.store.jobIds.eq hrow' hrow (hid'.trans hid.symm)
  exact hadmits

theorem selectJob_some {locked : List Uuid} {s : Store} {job : SyncJob} (h : selectJob locked s = some job) :
    job ∈ s.jobs ∧ Claimable job ∧ job.id ∉ locked := by
  have hmem := List.mem_filter.mp (Query.mem_of_first h)
  have hguard : Claimable job ∧ job.id ∉ locked := by simpa using hmem.2
  exact ⟨hmem.1, hguard⟩

theorem mem_locked {s : State} {job : SyncJob} {now : Instant} (h : Phase.claiming job now ∈ s.workers) :
    job.id ∈ s.locked :=
  List.mem_filterMap.mpr ⟨_, h, rfl⟩

/-- A row that may be claimed is nobody's. -/
theorem free_of_select {s : State} (h : Inv s) {skipped : List Uuid} {job : SyncJob}
    (hselect : selectJob (s.locked ++ skipped) s.shared.store = some job) {phase : Phase} (hphase : phase ∈ s.workers) :
    phase.held ≠ some job.id := by
  obtain ⟨hjob, hclaimable, hlocked⟩ := selectJob_some hselect
  obtain ⟨w, hw⟩ := List.mem_iff_getElem?.mp hphase
  intro hheld
  have hadmits := (h.fits w phase hw).row hheld hjob rfl
  rw [hclaimable] at hadmits
  cases phase with
  | idle => cases hheld
  | claiming other now =>
    have hid : other.id = job.id := Option.some.inj hheld
    exact hlocked (List.mem_append_left _ (hid ▸ mem_locked hphase))
  | failing => rcases hadmits with h | h <;> cases h
  | _ => cases hadmits

/-! ### One step -/

variable {host : Host}

/-- What a worker's step does. -/
theorem worker_step {w : Nat} {a : Step} {s t : State} (h : step host (.worker w a) s = some t) :
    ∃ phase phase' shared, s.workers[w]? = some phase ∧ Next host s.locked s.shared a phase phase' shared ∧
      t = ⟨shared, s.workers.set w phase'⟩ := by
  simp only [step, Option.bind_eq_bind, Option.pure_def, Option.bind_eq_some_iff, Option.some.injEq] at h
  obtain ⟨phase, hphase, ⟨phase', shared⟩, hact, rfl⟩ := h
  exact ⟨phase, phase', shared, hphase, next_of_act host hact, rfl⟩

/-- What a request that adds a job does. -/
theorem enqueue_step {id : Uuid} {requestedAt : Instant} {r : JobRequest} {s t : State}
    (h : step host (.enqueue id requestedAt r) s = some t) :
    ∃ store, t = {s with shared := {s.shared with store := store}} ∧
      (store.jobs = s.shared.store.jobs ∨ store.jobs = s.shared.store.jobs ++ [newJob id requestedAt r]) := by
  unfold step at h
  dsimp only at h
  split at h
  · cases h
  · rename_i job store hcreate
    cases h
    refine ⟨store, rfl, ?_⟩
    rcases createSyncJob_cases hcreate with ⟨-, rfl⟩ | ⟨-, -, -, hinsert⟩
    · exact .inl rfl
    · exact .inr (insertJob_rows hinsert).1

theorem inv_initial : Inv initial :=
  Parties.holds_nil fun _ hrow => nomatch hrow

theorem Inv.step {a : Action} {s t : State} (h : Inv s) (hs : step host a s = some t) : Inv t := by
  cases a with
  | boot =>
    obtain rfl := Option.some.inj hs
    exact h.join (fits_idle _) rfl
  | enqueue id requestedAt r =>
    obtain ⟨store, rfl, hjobs⟩ := enqueue_step hs
    apply h.change
    · intro row hrow hfinal
      rcases hjobs with heq | heq
      · exact h.shared row (heq ▸ hrow) hfinal
      · rcases List.mem_append.mp (heq ▸ hrow) with hrow | hrow
        · exact h.shared row hrow hfinal
        · obtain rfl := List.mem_singleton.mp hrow
          rfl
    · intro phase hphase held hheld
      obtain ⟨row, hrow, hid, hadmits⟩ := hphase held hheld
      refine ⟨row, ?_, hid, hadmits⟩
      rcases hjobs with heq | heq
      · exact heq ▸ hrow
      · exact heq ▸ List.mem_append_left _ hrow
  | worker w a =>
    obtain ⟨phase, phase', shared, hw, hnext, rfl⟩ := worker_step hs
    have hfits : Fits s.shared phase := h.fits w phase hw
    -- A step that leaves the jobs alone and holds no more than before.
    have quiet : ∀ {shared : Shared} {phase' : Phase}, shared.store.jobs = s.shared.store.jobs →
        phase'.held = phase.held → (∀ status, phase.admits status → phase'.admits status) →
        Inv ⟨shared, s.workers.set w phase'⟩ := by
      intro shared phase' hjobs hheld hadmits
      refine h.move hw ?_ (hfits.congr hjobs hheld hadmits) ?_ fun k hk => .inl (hheld ▸ hk)
      · exact fun row hrow => h.shared row (hjobs ▸ hrow)
      · exact fun x _ hx => hx.congr hjobs rfl fun _ => id
    have release : ∀ {shared : Shared}, shared.store.jobs = s.shared.store.jobs →
        Inv ⟨shared, s.workers.set w .idle⟩ := by
      intro shared hjobs
      refine h.move hw ?_ (fits_idle _) ?_ fun k hk => nomatch hk
      · exact fun row hrow => h.shared row (hjobs ▸ hrow)
      · exact fun x _ hx => hx.congr hjobs rfl fun _ => id
    cases hnext with
    | @select now skipped job hselect =>
      refine h.move hw h.shared ?_ (fun x _ hx => hx) ?_
      · obtain ⟨hjob, hclaimable, -⟩ := selectJob_some hselect
        intro id hid
        exact ⟨job, hjob, Option.some.inj hid, hclaimable⟩
      · intro id hid
        obtain rfl := Option.some.inj hid
        exact .inr fun x hx => free_of_select h hselect hx
    | selectNone | crash => exact release rfl
    | @commitClaim job now =>
      refine h.move hw ?_ (fits_written hfits rfl rfl rfl fun _ => rfl) ?_ fun k hk => .inl hk
      · refine h.shared.write rfl fun row hrow hid _ => ?_
        have hqueued : row.status = .queued := hfits.row rfl hrow hid
        exact h.shared row hrow (by rw [hqueued]; rfl)
      · exact fun x hother hx => hx.write rfl (hother job.id rfl)
    | list | query => exact quiet rfl rfl fun _ => id
    | listError | registerError | queryError | storeError => exact quiet rfl rfl fun _ => .inl
    | register hregister => exact quiet (register_frame hregister).2.2 rfl fun _ => id
    | @store job subscriptions resources draws now projections changed store hstore =>
      have hjobs : store.jobs = s.shared.store.jobs := storeItems_jobs hstore
      refine h.move hw ?_ (fits_written hfits rfl hjobs rfl fun _ => rfl) ?_ fun k hk => .inl hk
      · exact h.shared.write hjobs fun row _ _ hfinal => nomatch hfinal
      · exact fun x hother hx => hx.write hjobs (hother job.id rfl)
    | post => exact quiet rfl rfl fun _ => id
    | rebuild => exact release rfl
    | postError => exact quiet rfl rfl fun _ => .inr
    | @fail job error now =>
      refine h.move hw ?_ (fits_idle _) ?_ fun k hk => nomatch hk
      · exact h.shared.write rfl fun row _ _ hfinal => nomatch hfinal
      · exact fun x hother hx => hx.write rfl (hother job.id rfl)
    | failError => exact release rfl

/-! ### Recovery -/

/-- Worker `w` executes the job. -/
def Executes (s : State) (w : Nat) (id : Uuid) : Prop :=
  ∃ phase job, s.workers[w]? = some phase ∧ phase.job = some job ∧ job.id = id

/-- No job is executed twice at a time. -/
def Exclusive (s : State) : Prop := ∀ v w id, Executes s v id → Executes s w id → v = w

/-- What `claim_job` selects by at a time: no time is asked for. -/
def ClaimableAt (_ : Instant) (j : SyncJob) : Prop := Claimable j

/-- A job that is not over is executed, or may be claimed once `lease` has passed since the
last heartbeat. -/
def Recoverable (lease : Nat) (s : State) : Prop :=
  ∀ j ∈ s.shared.store.jobs, j.status.final = false →
    (∃ w, Executes s w j.id) ∨ ∀ now, j.heartbeatAt.getD j.requestedAt + lease ≤ now → ClaimableAt now j

/-- A worker that stops while it executes a job has written a final status. -/
def Survives (s : State) (a : Action) (_ : State) : Prop :=
  match a with
  | .worker w .crash | .worker w (.fail _ (some _)) =>
    ∀ phase ∈ s.workers[w]?, ∀ job ∈ phase.job, ∀ row ∈ s.shared.store.jobs, row.id = job.id → row.status.final
  | _ => True

/-- The running jobs are the ones to be executed. -/
theorem recoverable_iff_running {lease : Nat} {s : State} : Recoverable lease s ↔
    ∀ j ∈ s.shared.store.jobs, j.status = .running → ∃ w, Executes s w j.id := by
  refine ⟨?_, ?_⟩
  · intro h j hj hrunning
    rcases h j hj (by rw [hrunning]; rfl) with hexecuted | hclaimable
    · exact hexecuted
    · have hqueued : j.status = .queued := hclaimable _ (le_refl _)
      rw [hrunning] at hqueued
      cases hqueued
  · intro h j hj hfinal
    cases hstatus : j.status with
    | queued => exact .inr fun _ _ => hstatus
    | running => exact .inl (h j hj hstatus)
    | completed | failed =>
      rw [hstatus] at hfinal
      cases hfinal

theorem Executes.held {s : State} {w : Nat} {id : Uuid} (h : Executes s w id) :
    ∃ phase, s.workers[w]? = some phase ∧ phase.held = some id := by
  obtain ⟨phase, job, hphase, hjob, rfl⟩ := h
  exact ⟨phase, hphase, held_of_job hjob⟩

theorem exclusive_of_inv {s : State} (h : Inv s) : Exclusive s := by
  intro v w id hv hw
  obtain ⟨x, hx, hxid⟩ := hv.held
  obtain ⟨y, hy, hyid⟩ := hw.held
  exact h.exclusive v w x y id hx hy hxid hyid

/-- The executed jobs after worker `w` went on. -/
theorem executes_set {s : State} {w : Nat} {phase phase' : Phase} {shared : Shared}
    (hw : s.workers[w]? = some phase) {v : Nat} {id : Uuid} :
    Executes ⟨shared, s.workers.set w phase'⟩ v id ↔
      if w = v then ∃ job, phase'.job = some job ∧ job.id = id else Executes s v id := by
  simp only [Executes, Parties.getElem?_move hw]
  split_ifs <;> simp

/-- A worker goes on, and what runs then is what it executes or ran before without it. -/
theorem Recoverable.move {lease : Nat} {s : State} (h : Recoverable lease s) {w : Nat} {phase phase' : Phase}
    (hw : s.workers[w]? = some phase) {shared : Shared}
    (hrows : ∀ row' ∈ shared.store.jobs, row'.status = .running →
      (∃ job, phase'.job = some job ∧ job.id = row'.id) ∨
        (∃ row ∈ s.shared.store.jobs, row.id = row'.id ∧ row.status = .running) ∧
          ∀ job, phase.job = some job → job.id ≠ row'.id) :
    Recoverable lease ⟨shared, s.workers.set w phase'⟩ := by
  rw [recoverable_iff_running] at h ⊢
  intro row' hrow' hrunning
  rcases hrows row' hrow' hrunning with hexecuted | ⟨⟨row, hrow, hid, hstatus⟩, hother⟩
  · refine ⟨w, (executes_set hw).mpr ?_⟩
    rw [if_pos rfl]
    exact hexecuted
  · obtain ⟨v, hv⟩ := h row hrow hstatus
    refine ⟨v, (executes_set hw).mpr ?_⟩
    rw [if_neg, ← hid]
    · exact hv
    · rintro rfl
      obtain ⟨x, job, hx, hjob, hjobId⟩ := hv
      obtain rfl := Option.some.inj (hw.symm.trans hx)
      exact hother job hjob (hjobId.trans hid)

/-- A step that writes no job keeps the jobs recoverable if the worker goes on with its own. -/
theorem Recoverable.quiet {lease : Nat} {s : State} (h : Recoverable lease s) {w : Nat} {phase phase' : Phase}
    (hw : s.workers[w]? = some phase) {shared : Shared} (hjobs : shared.store.jobs = s.shared.store.jobs)
    (hjob : phase'.job = phase.job) : Recoverable lease ⟨shared, s.workers.set w phase'⟩ := by
  refine h.move hw fun row hrow hrunning => ?_
  by_cases hmine : ∃ job, phase'.job = some job ∧ job.id = row.id
  · exact .inl hmine
  · refine .inr ⟨⟨row, hjobs ▸ hrow, rfl, hrunning⟩, fun job hphase hid => hmine ⟨job, ?_, hid⟩⟩
    rw [hjob]
    exact hphase

/-- A worker that stops keeps them so exactly if its job is over. -/
theorem Recoverable.stop {lease : Nat} {s : State} (hinv : Inv s) (h : Recoverable lease s) {w : Nat}
    {phase : Phase} (hw : s.workers[w]? = some phase) :
    Recoverable lease ⟨s.shared, s.workers.set w .idle⟩ ↔
      ∀ job, phase.job = some job → ∀ row ∈ s.shared.store.jobs, row.id = job.id → row.status.final := by
  refine ⟨?_, ?_⟩
  · intro hafter job hjob row hrow hid
    rw [recoverable_iff_running] at hafter
    have hadmits := (hinv.fits w phase hw).row (held_of_job hjob) hrow hid
    have hnot : row.status ≠ .running := by
      intro hrunning
      obtain ⟨v, hv⟩ := hafter row hrow hrunning
      have hwv := (executes_set hw).mp hv
      split_ifs at hwv with heq
      · obtain ⟨job', hnone, -⟩ := hwv
        cases hnone
      · exact heq (exclusive_of_inv hinv w v row.id ⟨phase, job, hw, hjob, hid.symm⟩ hwv)
    cases phase with
    | idle | claiming => cases hjob
    | listing | registering | querying | storing => exact absurd hadmits hnot
    | projecting =>
      rw [show row.status = .completed from hadmits]
      rfl
    | failing =>
      rw [show row.status = .completed from hadmits.resolve_left hnot]
      rfl
  · intro hfinal
    refine h.move hw fun row hrow hrunning => .inr ⟨⟨row, hrow, rfl, hrunning⟩, fun job hjob hid => ?_⟩
    have hover := hfinal job hjob row hrow hid.symm
    rw [hrunning] at hover
    cases hover

/-- What a step does to the recoverable jobs. -/
theorem recoverable_step {lease : Nat} {a : Action} {s t : State} (hinv : Inv s) (h : Recoverable lease s)
    (hs : step host a s = some t) : Recoverable lease t ↔ Survives s a t := by
  cases a with
  | boot =>
    obtain rfl := Option.some.inj hs
    refine iff_of_true ?_ trivial
    rw [recoverable_iff_running] at h ⊢
    intro j hj hrunning
    obtain ⟨w, phase, job, hphase, hjob⟩ := h j hj hrunning
    exact ⟨w, phase, job, List.getElem?_append_left (List.getElem?_eq_some_iff.mp hphase).1 ▸ hphase, hjob⟩
  | enqueue id requestedAt r =>
    obtain ⟨store, rfl, hjobs⟩ := enqueue_step hs
    refine iff_of_true ?_ trivial
    rw [recoverable_iff_running] at h ⊢
    intro j hj hrunning
    rcases hjobs with heq | heq
    · exact h j (heq ▸ hj) hrunning
    · rcases List.mem_append.mp (heq ▸ hj) with hj | hj
      · exact h j hj hrunning
      · obtain rfl := List.mem_singleton.mp hj
        cases hrunning
  | worker w a =>
    obtain ⟨phase, phase', shared, hw, hnext, rfl⟩ := worker_step hs
    have hstops : (∀ phase ∈ s.workers[w]?, ∀ job ∈ phase.job, ∀ row ∈ s.shared.store.jobs,
        row.id = job.id → row.status.final) ↔
        ∀ job, phase.job = some job → ∀ row ∈ s.shared.store.jobs, row.id = job.id → row.status.final := by
      simp [hw]
    cases hnext with
    | select | selectNone => exact iff_of_true (h.quiet hw rfl rfl) trivial
    | @commitClaim job now =>
      refine iff_of_true (h.move hw fun row' hrow' hrunning => ?_) trivial
      obtain ⟨row, hrow, rfl⟩ := (mem_writeJob (keeps_claim now)).mp hrow'
      by_cases hid : row.id = job.id
      · refine .inl ⟨claim now job, rfl, ?_⟩
        rw [updateJob_self hid]
        exact hid.symm
      · rw [updateJob_other hid] at hrunning ⊢
        exact .inr ⟨⟨row, hrow, rfl, hrunning⟩, fun _ hnone => nomatch hnone⟩
    | list | listError | registerError | query | queryError | storeError | postError =>
      exact iff_of_true (h.quiet hw rfl rfl) trivial
    | register hregister => exact iff_of_true (h.quiet hw (register_frame hregister).2.2 rfl) trivial
    | @store job subscriptions resources draws now projections changed store hstore =>
      refine iff_of_true (h.move hw fun row' hrow' hrunning => ?_) trivial
      obtain ⟨row, hrow, rfl⟩ := (mem_writeJob (keeps_complete _ _ now)).mp hrow'
      by_cases hid : row.id = job.id
      · rw [updateJob_self hid] at hrunning
        cases hrunning
      · rw [updateJob_other hid] at hrunning ⊢
        refine .inr ⟨⟨row, storeItems_jobs hstore ▸ hrow, rfl, hrunning⟩, fun other hother heq => ?_⟩
        obtain rfl := Option.some.inj hother
        exact hid heq.symm
    | post => exact iff_of_true (h.quiet hw rfl rfl) trivial
    | @rebuild job =>
      refine iff_of_true (h.move hw fun row hrow hrunning => ?_) trivial
      refine .inr ⟨⟨row, hrow, rfl, hrunning⟩, fun other hother heq => ?_⟩
      have hcompleted : row.status = .completed := (hinv.fits w _ hw).row (held_of_job hother) hrow heq.symm
      rw [hrunning] at hcompleted
      cases hcompleted
    | @fail job error now =>
      refine iff_of_true (h.move hw fun row' hrow' hrunning => ?_) trivial
      obtain ⟨row, hrow, rfl⟩ := (mem_writeJob (keeps_fail error now)).mp hrow'
      by_cases hid : row.id = job.id
      · rw [updateJob_self hid] at hrunning
        cases hrunning
      · rw [updateJob_other hid] at hrunning ⊢
        refine .inr ⟨⟨row, hrow, rfl, hrunning⟩, fun other hother heq => ?_⟩
        obtain rfl := Option.some.inj hother
        exact hid heq.symm
    | failError | crash => exact (h.stop hinv hw).trans hstops.symm

/-- **Jobs survive** exactly in the runs where no worker stops, by a crash or by a handler
that raises too, while the row of its job says `running`: no job is ever executed twice at a
time, and every job that is not over is executed or may be claimed, whatever lease one waits
for. The first half holds in every run. -/
theorem recoverable_iff (host : Host) (lease : Nat) (actions : List Action) :
    Always (step host) Exclusive actions initial ∧
      (Always (step host) (fun s => Exclusive s ∧ Recoverable lease s) actions initial ↔
        EveryStep (step host) Survives actions initial) := by
  refine ⟨?_, ?_⟩
  · refine Always.mono (fun s => exclusive_of_inv) (Always.of_invariant actions inv_initial ?_)
    exact fun a s t h hs => h.step hs
  · refine always_iff_everyStep (I := Inv) (N := fun _ => True) inv_initial ?_ ?_ ?_ ?_
    · exact ⟨exclusive_of_inv inv_initial, fun j hj => nomatch hj⟩
    · exact Always.of_invariant actions trivial fun _ _ _ _ _ => trivial
    · exact fun a s t h hs => h.step hs
    · intro a s t hinv hinv' _ h hs
      rw [and_iff_right (exclusive_of_inv hinv')]
      exact recoverable_step hinv h.2 hs

/-! ### A worker that crashes -/

def sampleRequest : JobRequest where
  tenantId := 1
  actorId := 2
  entraTenantId := 5
  mode := "full"
  subscriptionIds := [3]
  correlationId := 4
  idempotencyKey := "nightly"

/-- A job is requested and claimed. -/
def claimed : List Action :=
  [.boot, .enqueue 7 0 sampleRequest, .worker 0 (.select 1 []), .worker 0 .commitClaim]

/-- The worker of a claimed job crashes, and the job stays `running` with nobody at it, however
long one waits. -/
theorem abandoned : ¬ ∃ lease, Always (step sampleHost) (fun s => Exclusive s ∧ Recoverable lease s)
    (claimed ++ [.worker 0 .crash]) initial := by
  intro ⟨lease, h⟩
  have hend : ((run (step sampleHost) (claimed ++ [.worker 0 .crash]) initial).map fun s =>
      (s.shared.store.jobs.map SyncJob.status, s.workers.map Phase.held)) = some ([.running], [none]) := by
    decide +kernel
  obtain ⟨s, hrun, heq⟩ := Option.map_eq_some_iff.mp hend
  obtain ⟨hjobs, hworkers⟩ := Prod.mk.inj heq
  obtain ⟨job, hjob, hstatus⟩ := List.map_eq_singleton_iff.mp hjobs
  have hrecoverable := recoverable_iff_running.mp (h.last hrun).2
  obtain ⟨w, hexecutes⟩ := hrecoverable job (by simp [hjob]) hstatus
  obtain ⟨phase, hphase, hheld⟩ := hexecutes.held
  have hmem : some job.id ∈ s.workers.map Phase.held := List.mem_map.mpr ⟨phase, List.mem_of_getElem? hphase, hheld⟩
  rw [hworkers] at hmem
  simp at hmem

end Sentinel.Inventory
