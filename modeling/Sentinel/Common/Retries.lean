import Sentinel.Common.Lease

/-! How often a record is attempted.

The claim raises `attempts`, and only the failure handler compares it with the limit. So the
twentieth attempt has to end there: a worker that crashes on it, or outlives its lease,
leaves the record claimable, and an outcome of an earlier attempt that is committed late puts
it back. In the runs without these, twenty attempts are all a record gets
(`retries_bounded`); `retried` is a run with crashes. -/
namespace Sentinel.Common.Relay
open Library Library.Transition

def WithinBudget (s : State) : Prop := ∀ row ∈ s.rows, row.record.attempts ≤ 20

/-- A record is claimed only while it has attempts left. -/
def AttemptsLeft (s : State) (a : Action) : Prop :=
  ∀ w id, Claims s w a id → ∀ row ∈ s.rows, row.record.id = id → row.record.attempts < 20

/-- The record a worker attempts, as it claimed it. -/
def Worker.attempting : Worker → Option OutboxRecord
  | .holding r | .settling r _ => some r
  | _ => none

/-- The leases of twentieth attempts still run. -/
def OnTime (s : State) : Prop :=
  ∀ worker ∈ s.workers, ∀ r ∈ worker.attempting, r.attempts = 20 → s.clock < r.availableAt

/-- No worker crashes on a twentieth attempt, none outlives the lease of one, and no outcome
of an earlier attempt is committed once the twentieth has begun. -/
def Sparing (s : State) (a : Action) (_ : State) : Prop :=
  OnTime s ∧
    match a with
    | .worker w .crash => ∀ worker ∈ s.workers[w]?, ∀ r ∈ worker.attempting, r.attempts ≠ 20
    | .worker w .commitOutcome => ∀ worker ∈ s.workers[w]?, ∀ r ∈ worker.attempting,
        ∀ row ∈ s.rows, row.record.id = r.id → row.record.attempts = 20 → r.attempts = 20
    | _ => True

instance (s : State) : Decidable (OnTime s) :=
  inferInstanceAs (Decidable
    (∀ worker ∈ s.workers, ∀ r ∈ worker.attempting, r.attempts = 20 → s.clock < r.availableAt))

instance (s : State) (a : Action) (s' : State) : Decidable (Sparing s a s') :=
  match a with
  | .worker w .crash =>
    inferInstanceAs (Decidable
      (OnTime s ∧ ∀ worker ∈ s.workers[w]?, ∀ r ∈ worker.attempting, r.attempts ≠ 20))
  | .worker w .commitOutcome =>
    inferInstanceAs (Decidable (OnTime s ∧ ∀ worker ∈ s.workers[w]?, ∀ r ∈ worker.attempting,
      ∀ row ∈ s.rows, row.record.id = r.id → row.record.attempts = 20 → r.attempts = 20))
  | .tick _ | .boot | .enqueue .. | .worker _ .readClock | .worker _ (.select _) | .worker _ .commitClaim
  | .worker _ .publishOk | .worker _ (.publishError _) => inferInstanceAs (Decidable (OnTime s ∧ True))

/-- A worker is on the twentieth attempt of the record, under the lease in the row. -/
def LastHeld (s : State) (r : OutboxRecord) : Prop :=
  ∃ (w : Nat) (worker : Worker), s.workers[w]? = some worker ∧ ∃ held ∈ worker.attempting,
    held.id = r.id ∧ held.attempts = 20 ∧ held.availableAt = r.availableAt

/-- A record whose twentieth attempt has begun is over, or that attempt is under way. -/
structure Budgeted (s : State) : Prop where
  within : ∀ row ∈ s.rows, row.record.attempts ≤ 20
  last : ∀ row ∈ s.rows, row.record.attempts = 20 →
    row.record.status.final ∨ row.record.status = .publishing ∧ LastHeld s row.record
  selected : ∀ (w : Nat) (old new : OutboxRecord), s.workers[w]? = some (.selected old new) → old.attempts < 20

theorem budgeted_initial : Budgeted initial where
  within := by simp [initial]
  last := by simp [initial]
  selected := by simp [initial]

/-- What can be claimed has attempts left. -/
theorem Budgeted.left {s : State} (h : Budgeted s) (htimes : OnTime s) {row : Row} (hrow : row ∈ s.rows) {now : Instant}
    (hnow : now ≤ s.clock) (hclaimable : Claimable now row.record) : row.record.attempts < 20 := by
  refine lt_of_le_of_ne (h.within row hrow) fun hlast => ?_
  rcases h.last row hrow hlast with hfinal | ⟨-, w, worker, hw, held, hheld, -, hattempts, hlease⟩
  · rw [not_final_of_claimable hclaimable] at hfinal
    cases hfinal
  · have htime : s.clock < held.availableAt := htimes worker (List.mem_of_getElem? hw) held hheld hattempts
    have havailable : row.record.availableAt ≤ now := hclaimable.2
    rw [hlease] at htime
    exact absurd (htime.trans_le havailable) (not_lt.mpr hnow)

/-- Whoever goes on with the attempt it was on, or was on none that is the twentieth, leaves
the others theirs. -/
theorem LastHeld.set {s : State} {r : OutboxRecord} (h : LastHeld s r) {w : Nat} {worker other : Worker}
    (hw : s.workers[w]? = some other)
    (hkept : ∀ held ∈ other.attempting, held.attempts = 20 → held.id = r.id → held ∈ worker.attempting) :
    LastHeld (s.set w worker) r := by
  obtain ⟨v, holder, hv, held, hheld, hid, hattempts, hlease⟩ := h
  by_cases hvw : w = v
  · subst hvw
    obtain rfl := Option.some.inj (hw.symm.trans hv)
    exact ⟨w, worker, by rw [getElem?_set hw, if_pos rfl], held, hkept held hheld hattempts hid, hid, hattempts,
      hlease⟩
  · exact ⟨v, holder, by rw [getElem?_set hw, if_neg hvw, hv], held, hheld, hid, hattempts, hlease⟩

theorem LastHeld.boot {s : State} {r : OutboxRecord} (h : LastHeld s r) :
    LastHeld {s with workers := s.workers ++ [.idle]} r := by
  obtain ⟨w, worker, hw, hheld⟩ := h
  have hlt : w < s.workers.length := (List.getElem?_eq_some_iff.mp hw).1
  exact ⟨w, worker, by simp only [List.getElem?_append_left hlt, hw], hheld⟩

/-- What workers have selected has attempts left. -/
theorem Budgeted.selected_set {s : State} (h : Budgeted s) {w : Nat} {worker other : Worker}
    (hw : s.workers[w]? = some other) (hselected : ∀ old new, worker = .selected old new → old.attempts < 20)
    (v : Nat) (old new : OutboxRecord) (hv : (s.set w worker).workers[v]? = some (.selected old new)) :
    old.attempts < 20 := by
  rw [getElem?_set hw] at hv
  split_ifs at hv
  · exact hselected old new (Option.some.inj hv)
  · exact h.selected v old new hv

/-- A worker goes on. -/
theorem Budgeted.set {s : State} (h : Budgeted s) {w : Nat} {worker other : Worker}
    (hw : s.workers[w]? = some other)
    (hkept : ∀ held ∈ other.attempting, held.attempts = 20 → held ∈ worker.attempting)
    (hselected : ∀ old new, worker = .selected old new → old.attempts < 20) : Budgeted (s.set w worker) where
  within := h.within
  last := fun row hrow hattempts =>
    (h.last row hrow hattempts).imp_right fun hheld =>
      ⟨hheld.1, hheld.2.set hw fun held hmem hlast _ => hkept held hmem hlast⟩
  selected := h.selected_set hw hselected

/-- The attempts in a row after an outcome are those before it. -/
theorem attempts_settled {s : State} (hinv : Inv s) {w : Nat} {old new : OutboxRecord}
    (hw : s.workers[w]? = some (.settling old new)) (now : Instant) (row : Row) :
    (settled now w old new row).record.attempts = row.record.attempts := by
  obtain ⟨-, -, at', -, hnew⟩ := hinv.fits w _ hw
  have hattempts : new.attempts = old.attempts := by
    rcases hnew with rfl | ⟨error, rfl⟩ <;> rfl
  simp [settled, write, hattempts]

/-- The outcome of a twentieth attempt is the last: the failure handler has the limit. -/
theorem final_settled {s : State} (hinv : Inv s) {w : Nat} {old new : OutboxRecord}
    (hw : s.workers[w]? = some (.settling old new)) (hlast : old.attempts = 20) (now : Instant) (row : Row) :
    (settled now w old new row).record.status.final := by
  obtain ⟨-, hstatus, at', -, hnew⟩ := hinv.fits w _ hw
  rcases hnew with rfl | ⟨error, rfl⟩
  · simp [settled, write, succeed, hstatus, Status.final]
  · simp [settled, write, fail, hstatus, hlast, Status.final]

theorem Budgeted.step {a : Action} {s t : State} (h : Budgeted s) (hinv : Inv s) (hs : step a s = some t)
    (hspare : Sparing s a t) : Budgeted t := by
  obtain ⟨htime, hspare⟩ := hspare
  cases next_of_step hs with
  | tick => exact ⟨h.within, h.last, h.selected⟩
  | boot =>
    refine ⟨h.within, fun row hrow hattempts => ?_, fun w old new hw => ?_⟩
    · exact (h.last row hrow hattempts).imp_right fun hheld => ⟨hheld.1, hheld.2.boot⟩
    · simp only [List.getElem?_append] at hw
      split_ifs at hw
      · exact h.selected w old new hw
      · cases List.mem_singleton.mp (List.mem_of_getElem? hw)
  | enqueue =>
    refine ⟨fun row hrow => ?_, fun row hrow hattempts => ?_, h.selected⟩
    · rcases List.mem_append.mp hrow with hrow | hrow
      · exact h.within row hrow
      · obtain rfl := List.mem_singleton.mp hrow
        exact Nat.zero_le _
    · rcases List.mem_append.mp hrow with hrow | hrow
      · exact h.last row hrow hattempts
      · obtain rfl := List.mem_singleton.mp hrow
        cases hattempts
  | readClock hw | selectNone hw =>
    exact h.set hw (fun _ hheld => by cases hheld) fun _ _ hnot => by cases hnot
  | publishOk hw | publishError _ hw =>
    exact h.set hw (fun _ hheld _ => hheld) fun _ _ hnot => by cases hnot
  | crash hw =>
    refine h.set hw (fun held hheld hattempts => ?_) fun _ _ hnot => by cases hnot
    exact absurd hattempts (hspare _ hw held hheld)
  | @select w now skipped r hw hr =>
    refine h.set hw (fun _ hheld => by cases hheld) fun old new heq => ?_
    obtain ⟨rfl, -⟩ := Worker.selected.inj heq
    obtain ⟨⟨row, hrow, rfl⟩, hclaimable, -⟩ := select_some hr
    exact h.left htime hrow (hinv.fits w _ hw) hclaimable
  | @commitClaim w old new hw =>
    have hleft : old.attempts < 20 := h.selected w old new hw
    refine ⟨fun row' hrow' => ?_, fun row' hrow' hattempts => ?_,
      h.selected_set hw fun _ _ hnot => by cases hnot⟩
    · obtain ⟨row, hrow, rfl⟩ := mem_update.mp hrow'
      split_ifs with hid
      · obtain ⟨hrecord, now, -, rfl, -⟩ := selected_row hinv hw hrow hid
        simp only [granted, hrecord, write_claim]
        exact hleft
      · exact h.within row hrow
    · obtain ⟨row, hrow, rfl⟩ := mem_update.mp hrow'
      split_ifs at hattempts ⊢ with hid
      · -- The claim that begins the twentieth attempt.
        obtain ⟨hrecord, now, -, rfl, -⟩ := selected_row hinv hw hrow hid
        simp only [granted, hrecord, write_claim] at hattempts ⊢
        refine .inr ⟨rfl, w, .holding _, ?_, _, rfl, rfl, hattempts, rfl⟩
        exact (getElem?_set hw).trans (if_pos rfl)
      · exact (h.last row hrow hattempts).imp_right fun hheld =>
          ⟨hheld.1, hheld.2.set hw fun _ hnot => by cases hnot⟩
  | @commitOutcome w old new hw hlocked =>
    refine ⟨fun row' hrow' => ?_, fun row' hrow' hattempts => ?_,
      h.selected_set hw fun _ _ hnot => by cases hnot⟩
    · obtain ⟨row, hrow, rfl⟩ := mem_update.mp hrow'
      split_ifs with hid
      · rw [attempts_settled hinv hw]
        exact h.within row hrow
      · exact h.within row hrow
    · obtain ⟨row, hrow, rfl⟩ := mem_update.mp hrow'
      split_ifs at hattempts ⊢ with hid
      · rw [attempts_settled hinv hw] at hattempts
        exact .inl (final_settled hinv hw (hspare _ hw old rfl row hrow hid hattempts) _ _)
      · refine (h.last row hrow hattempts).imp_right fun hheld =>
          ⟨hheld.1, hheld.2.set hw fun held hmem _ hheldId => ?_⟩
        obtain rfl := Option.some.inj hmem
        exact absurd hheldId.symm hid

/-- Such a step claims only what has attempts left. -/
theorem attemptsLeft_step {a : Action} {s : State} (h : Budgeted s) (hinv : Inv s) (htime : OnTime s) :
    AttemptsLeft s a := by
  intro w id hclaims row hrow hid
  cases hclaims with
  | @select now skipped r hw hr =>
    obtain ⟨⟨row', hrow', rfl⟩, hclaimable, -⟩ := select_some hr
    obtain rfl := row_unique hinv hrow hrow' hid
    exact h.left htime hrow (hinv.fits w _ hw) hclaimable
  | commit hw =>
    obtain ⟨hrecord, -⟩ := selected_row hinv hw hrow hid
    rw [hrecord]
    exact h.selected w _ _ hw

/-- **Twenty attempts** are all a record gets, in every run in which no worker crashes on a
twentieth attempt or outlives its lease, and no outcome of an earlier attempt is committed
once the twentieth has begun: no record counts more, and none that counts twenty is
claimed. -/
theorem retries_bounded {actions : List Action} (h : EveryStep step Sparing actions initial) :
    Always step WithinBudget actions initial ∧
      EveryStep step (fun s a _ => AttemptsLeft s a) actions initial := by
  have hkept : EveryStep step (fun s a t => WithinBudget t ∧ AttemptsLeft s a) actions initial := by
    refine EveryStep.of_guarded (I := fun s => Inv s ∧ Budgeted s) ⟨inv_initial, budgeted_initial⟩ h ?_ ?_
    · exact fun a s t hI hs hC => ⟨hI.1.step hs, hI.2.step hI.1 hs hC⟩
    · exact fun a s t hI hs hC => ⟨(hI.2.step hI.1 hs hC).within, attemptsLeft_step hI.2 hI.1 hC.1⟩
  refine ⟨?_, ?_⟩
  · refine EveryStep.always ?_ (EveryStep.mono (fun _ _ _ hboth => hboth.1) hkept)
    simp [WithinBudget, initial]
  · exact EveryStep.mono (fun _ _ _ hboth => hboth.2) hkept

/-! ### Attempts that crash -/

/-- An attempt that `ending` ends, and the time until the record may be claimed again. -/
def attempt (ending : List Step) : List Action :=
  (Step.readClock :: Step.select [] :: Step.commitClaim :: ending).map (.worker 0) ++ [.tick lease]

/-- One worker, one record, and as many attempts. -/
def attempts (ending : List Step) (times : Nat) : List Action :=
  [.boot, .enqueue (syncRequested 1 0) 7 0 0] ++ (List.replicate times (attempt ending)).flatten

theorem retries_bounded_failures :
    Always step WithinBudget (attempts [.publishError "timed out", .commitOutcome] 21) initial ∧
      EveryStep step (fun s a _ => AttemptsLeft s a)
        (attempts [.publishError "timed out", .commitOutcome] 21) initial :=
  retries_bounded (by decide +kernel)

/-- A worker that crashes on every attempt is given the record a twenty-first time. -/
theorem retried : ∃ s, run step (attempts [.crash] 21) initial = some s ∧ ¬ WithinBudget s := by
  have hattempts : (run step (attempts [.crash] 21) initial).map (fun s => s.rows.map (·.record.attempts)) =
      some [21] := by decide +kernel
  obtain ⟨s, hrun, heq⟩ := Option.map_eq_some_iff.mp hattempts
  obtain ⟨row, hrows, hrow⟩ := List.map_eq_singleton_iff.mp heq
  refine ⟨s, hrun, fun hwithin => ?_⟩
  have hle := hwithin row (by simp [hrows])
  omega

end Sentinel.Common.Relay
