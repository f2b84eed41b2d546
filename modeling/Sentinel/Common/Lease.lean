import Sentinel.Common.RelayProofs

/-! What the lease of a claim protects.

A claim moves `available_at` five minutes ahead, so nobody else claims the record until
then, unless somebody writes it. And somebody can: a worker whose publish outlived its
lease still commits its outcome, whatever the row says by now. In the runs where no worker
does, a published or dead record stays so and a lease is respected (`lease_safety`);
`published_undone` is a run where one does. -/
namespace Sentinel.Common.Relay
open Library Library.Transition

/-- A record that was published or dead is still so. -/
def FinalKept (s t : State) : Prop :=
  ∀ (k : Nat) (row : Row), s.rows[k]? = some row → row.record.status.final →
    ∃ row', t.rows[k]? = some row' ∧ row'.record.id = row.record.id ∧
      row'.record.status = row.record.status

/-- Worker `w` claims the record: it selects it, or commits the claim. -/
inductive Claims (s : State) (w : Nat) : Action → Uuid → Prop
  | select {now : Instant} {skipped : List Uuid} {r : OutboxRecord}
      (hw : s.workers[w]? = some (.claiming now)) (hr : select s now skipped = some r) :
      Claims s w (.worker w (.select skipped)) r.id
  | commit {old new : OutboxRecord} (hw : s.workers[w]? = some (.selected old new)) :
      Claims s w (.worker w .commitClaim) old.id

/-- A record is claimed only after the lease last granted on it, if its holder has not
committed an outcome since, has expired. -/
def LeaseKept (s : State) (a : Action) : Prop :=
  ∀ w id, Claims s w a id → ∀ row ∈ s.rows, row.record.id = id →
    ∀ holder expiry, row.lease = some (holder, expiry) → expiry ≤ s.clock

/-- A worker commits an outcome only while it holds the lease last granted on the record. -/
def ByHolder (s : State) (a : Action) (_ : State) : Prop :=
  match a with
  | .worker w .commitOutcome =>
    match s.workers[w]? with
    | some (.settling old _) =>
      ∀ row ∈ s.rows, row.record.id = old.id → (row.lease.map Prod.fst) = some w
    | _ => True
  | _ => True

instance (s : State) (a : Action) (t : State) : Decidable (ByHolder s a t) := by
  unfold ByHolder
  split
  · split <;> infer_instance
  · infer_instance

/-- A lease is what the row says, until its holder writes. -/
def Leased (s : State) : Prop :=
  ∀ row ∈ s.rows, ∀ holder expiry, row.lease = some (holder, expiry) →
    row.record.status = .publishing ∧ row.record.availableAt = expiry

theorem not_final_of_claimable {now : Instant} {r : OutboxRecord} (h : Claimable now r) :
    r.status.final = false := by
  rcases h.1 with h | h <;> rw [h] <;> rfl

theorem getElem?_update {s : State} {id : Uuid} {f : Row → Row} {k : Nat} {row : Row}
    (h : s.rows[k]? = some row) :
    (s.update id f).rows[k]? = some (if row.record.id = id then f row else row) := by
  simp [State.update, h]

/-- A write keeps final records if it is not to one. -/
theorem finalKept_update {s : State} {id : Uuid} {f : Row → Row}
    (hf : ∀ row ∈ s.rows, row.record.id = id → row.record.status.final = false) :
    FinalKept s (s.update id f) := by
  intro k row hk hfinal
  refine ⟨_, getElem?_update hk, ?_⟩
  split_ifs with hid
  · simp [hf row (List.mem_of_getElem? hk) hid] at hfinal
  · exact ⟨rfl, rfl⟩

theorem finalKept_of_rows {s t : State} (h : t.rows = s.rows) : FinalKept s t := by
  intro k row hk _
  exact ⟨row, h ▸ hk, rfl, rfl⟩

theorem not_final_of_lease {s : State} (h : Leased s) {row : Row} (hrow : row ∈ s.rows) {w : Nat}
    (hw : row.lease.map Prod.fst = some w) : row.record.status.final = false := by
  obtain ⟨⟨holder, expiry⟩, hlease, -⟩ := Option.map_eq_some_iff.mp hw
  rw [(h row hrow holder expiry hlease).1]
  rfl

/-- A step keeps the leases what the rows say, if outcomes are the holder's. -/
theorem Leased.step {a : Action} {s t : State} (h : Leased s) (hinv : Inv s) (hs : step a s = some t)
    (hholder : ByHolder s a t) : Leased t := by
  cases next_of_step hs with
  | enqueue hfresh havailable hcreated =>
    intro row hrow holder expiry hlease
    rcases List.mem_append.mp hrow with hrow | hrow
    · exact h row hrow holder expiry hlease
    · obtain rfl := List.mem_singleton.mp hrow
      cases hlease
  | @commitClaim w old new hw =>
    intro row' hrow' holder expiry hlease
    obtain ⟨row, hrow, rfl⟩ := mem_update.mp hrow'
    split_ifs at hlease ⊢ with hid
    · obtain ⟨hrecord, now, -, rfl, -⟩ := selected_row hinv hw hrow hid
      obtain ⟨rfl, rfl⟩ := Prod.mk.inj (Option.some.inj hlease)
      simp only [granted, hrecord, write_claim]
      exact ⟨rfl, trivial⟩
    · exact h row hrow holder expiry hlease
  | @commitOutcome w old new hw hlocked =>
    intro row' hrow' holder expiry hlease
    obtain ⟨row, hrow, rfl⟩ := mem_update.mp hrow'
    split_ifs at hlease ⊢ with hid
    · -- The holder's outcome ends the lease.
      simp only [ByHolder, hw] at hholder
      obtain ⟨⟨holder', expiry'⟩, hrowLease, rfl⟩ := Option.map_eq_some_iff.mp (hholder row hrow hid)
      simp only [settled, hrowLease, Option.filter_some] at hlease
      simp at hlease
    · exact h row hrow holder expiry hlease
  | _ => exact h

/-- What one step does to final records and to leases, if outcomes are the holder's. -/
theorem kept_step {a : Action} {s t : State} (h : Leased s) (hinv : Inv s) (hs : step a s = some t)
    (hholder : ByHolder s a t) : FinalKept s t ∧ LeaseKept s a := by
  have expired : ∀ {now : Instant} {row : Row}, row ∈ s.rows → Claimable now row.record →
      now ≤ s.clock → ∀ holder expiry, row.lease = some (holder, expiry) → expiry ≤ s.clock := by
    intro now row hrow hclaimable hnow holder expiry hlease
    rw [← (h row hrow holder expiry hlease).2]
    exact le_trans hclaimable.2 hnow
  refine ⟨?_, ?_⟩
  · cases next_of_step hs with
    | enqueue hfresh havailable hcreated =>
      intro k row hk _
      have hlt : k < s.rows.length := (List.getElem?_eq_some_iff.mp hk).1
      exact ⟨row, by simp only [List.getElem?_append_left hlt, hk], rfl, rfl⟩
    | commitClaim hw =>
      refine finalKept_update (s := s.set _ _) fun row hrow hid => ?_
      obtain ⟨hrecord, now, -, -, hclaimable⟩ := selected_row hinv hw hrow hid
      rw [hrecord]
      exact not_final_of_claimable hclaimable
    | commitOutcome hw hlocked =>
      refine finalKept_update (s := s.set _ _) fun row hrow hid => ?_
      simp only [ByHolder, hw] at hholder
      exact not_final_of_lease h hrow (hholder row hrow hid)
    | _ => exact finalKept_of_rows rfl
  · rintro w id hclaims row hrow hid
    cases hclaims with
    | select hw hr =>
      obtain ⟨⟨row', hrow', rfl⟩, hclaimable, -⟩ := select_some hr
      obtain rfl := row_unique hinv hrow hrow' hid
      exact expired hrow hclaimable (hinv.fits w _ hw)
    | commit hw =>
      obtain ⟨hrecord, now, hnow, -, hclaimable⟩ := selected_row hinv hw hrow hid
      exact expired hrow (hrecord ▸ hclaimable) hnow

/-- **Leases are safe** in every run whose outcomes are all committed by the holder of the
lease last granted on the record: no step changes a published or dead record's status, and
no worker claims a record while the lease last granted on it runs. -/
theorem lease_safety {actions : List Action} (h : EveryStep step ByHolder actions initial) :
    EveryStep step (fun s a t => FinalKept s t ∧ LeaseKept s a) actions initial := by
  refine EveryStep.of_guarded (I := fun s => Inv s ∧ Leased s) ⟨inv_initial, ?_⟩ h ?_ ?_
  · intro row hrow
    simp [initial] at hrow
  · exact fun a s t hI hs hC => ⟨hI.1.step hs, hI.2.step hI.1 hs hC⟩
  · exact fun a s t hI hs hC => kept_step hI.2 hI.1 hs hC

/-! ### A late outcome -/

/-- Two workers and one record; worker 0 claims it. -/
def claimed : List Action :=
  [.boot, .boot, .enqueue (syncRequested 1 0) 7 0 0, .worker 0 .readClock,
    .worker 0 (.select []), .worker 0 .commitClaim]

/-- Worker 0 publishes within its lease, and worker 1 then finds nothing to claim. -/
def timelyRun : List Action :=
  claimed ++ [.worker 0 .publishOk, .worker 0 .commitOutcome, .worker 1 .readClock,
    .worker 1 (.select [])]

/-- Worker 0 waits longer than its lease; worker 1 claims and publishes the record. -/
def lateRun : List Action :=
  claimed ++ [.tick lease, .worker 1 .readClock, .worker 1 (.select []), .worker 1 .commitClaim,
    .worker 1 .publishOk, .worker 1 .commitOutcome, .worker 0 (.publishError "timed out")]

theorem lease_safety_timelyRun :
    EveryStep step (fun s a t => FinalKept s t ∧ LeaseKept s a) timelyRun initial :=
  lease_safety (by decide +kernel)

/-- After `lateRun` the record is published; then worker 0 commits that its own attempt
failed. -/
theorem published_undone : ∃ s t, run step lateRun initial = some s ∧
    step (.worker 0 .commitOutcome) s = some t ∧ ¬ FinalKept s t := by
  have hstatuses : ((run step lateRun initial).bind fun s =>
      (step (.worker 0 .commitOutcome) s).map fun t =>
        (s.rows.map (·.record.status), t.rows.map (·.record.status))) =
      some ([.published], [.pending]) := by decide +kernel
  obtain ⟨s, hrun, hstep⟩ := Option.bind_eq_some_iff.mp hstatuses
  obtain ⟨t, ht, heq⟩ := Option.map_eq_some_iff.mp hstep
  obtain ⟨hs, ht'⟩ := Prod.mk.inj heq
  obtain ⟨row, hrows, hrow⟩ := List.map_eq_singleton_iff.mp hs
  obtain ⟨row', hrows', hrow'⟩ := List.map_eq_singleton_iff.mp ht'
  refine ⟨s, t, hrun, ht, fun hkept => ?_⟩
  obtain ⟨kept, hkept, -, hstatus⟩ := hkept 0 row (by rw [hrows]; rfl) (by rw [hrow]; rfl)
  rw [hrows'] at hkept
  obtain rfl := Option.some.inj hkept
  rw [hrow, hrow'] at hstatus
  cases hstatus

end Sentinel.Common.Relay
