import Sentinel.Common.Relay
import Sentinel.Library.Table

/-! What holds in every reachable state of the relays, whatever they do.

A row is locked from its selection to the commit of the claim, so the claim is written
over the row that was selected (`Fits`, `exclusive`). What a worker keeps in memory after
that may be out of date, but it names a row and its event. No write, late or not, moves a
record's next attempt further than a lease from the time of the write (`bounded`). -/
namespace Sentinel.Common.Relay
open Library Library.Transition

/-- The tenant and the id of the event a record carries. -/
def Row.eventKey (row : Row) : Uuid × Uuid := (row.record.payload.tenantId, row.record.payload.id)

/-- Some row is the record's, whatever was written to it since. -/
def Known (s : State) (r : OutboxRecord) : Prop :=
  ∃ row ∈ s.rows, row.record.id = r.id ∧ row.record.payload = r.payload

/-- What a worker knows. -/
def Fits (s : State) : Worker → Prop
  | .idle => True
  | .claiming now => now ≤ s.clock
  | .selected old new => (∃ row ∈ s.rows, row.record = old) ∧
      ∃ now ≤ s.clock, new = claim now old ∧ Claimable now old
  | .holding r => Known s r ∧ r.status = .publishing
  | .settling old new => Known s old ∧ old.status = .publishing ∧
      ∃ now ≤ s.clock, new = succeed now old ∨ ∃ error, new = fail now error old

structure Inv (s : State) : Prop where
  unique : (s.rows.map fun row => row.record.id).Nodup
  events : (s.rows.map Row.eventKey).Nodup
  fits : ∀ (w : Nat) (worker : Worker), s.workers[w]? = some worker → Fits s worker
  exclusive : ∀ (v w : Nat) (worker other : Worker) (id : Uuid), s.workers[v]? = some worker →
    s.workers[w]? = some other → worker.Locks id → other.Locks id → v = w
  bounded : ∀ row ∈ s.rows, row.record.availableAt ≤ row.writtenAt + lease ∧ row.writtenAt ≤ s.clock

theorem inv_initial : Inv initial where
  unique := by simp [initial]
  events := by simp [initial]
  fits := by simp [initial]
  exclusive := by simp [initial]
  bounded := by simp [initial]

/-! ### Lemmas about single updates -/

theorem getElem?_set {s : State} {v w : Nat} {worker other : Worker} (hw : s.workers[w]? = some other) :
    (s.set w worker).workers[v]? = if w = v then some worker else s.workers[v]? := by
  have hlt : w < s.workers.length := (List.getElem?_eq_some_iff.mp hw).1
  simp only [State.set, List.getElem?_set]
  split_ifs with h
  · rfl
  · rfl

theorem mem_update {s : State} {id : Uuid} {f : Row → Row} {row' : Row} :
    row' ∈ (s.update id f).rows ↔
      ∃ row ∈ s.rows, row' = if row.record.id = id then f row else row := by
  simp [State.update, eq_comm]

theorem map_update {β : Type*} {s : State} {id : Uuid} {f : Row → Row} (g : Row → β)
    (hg : ∀ row, g (f row) = g row) : (s.update id f).rows.map g = s.rows.map g := by
  simp only [State.update, List.map_map]
  refine List.map_congr_left fun row _ => ?_
  simp only [Function.comp_apply]
  split_ifs <;> simp [hg]

/-- Both writes leave the identity and the event of a record. -/
structure Keeps (f : Row → Row) : Prop where
  id : ∀ row, (f row).record.id = row.record.id
  payload : ∀ row, (f row).record.payload = row.record.payload

theorem keeps_granted (now : Instant) (w : Nat) (old new : OutboxRecord) :
    Keeps (granted now w old new) := ⟨fun _ => rfl, fun _ => rfl⟩

theorem keeps_settled (now : Instant) (w : Nat) (old new : OutboxRecord) :
    Keeps (settled now w old new) := ⟨fun _ => rfl, fun _ => rfl⟩

theorem Known.update {s : State} {r : OutboxRecord} (h : Known s r) {id : Uuid} {f : Row → Row}
    (hf : Keeps f) : Known (s.update id f) r := by
  obtain ⟨row, hrow, hid, hpayload⟩ := h
  refine ⟨_, mem_update.mpr ⟨row, hrow, rfl⟩, ?_⟩
  split_ifs
  · exact ⟨(hf.id row).trans hid, (hf.payload row).trans hpayload⟩
  · exact ⟨hid, hpayload⟩

theorem select_some {s : State} {now : Instant} {skipped : List Uuid} {r : OutboxRecord}
    (h : select s now skipped = some r) :
    (∃ row ∈ s.rows, row.record = r) ∧ Claimable now r ∧ ¬ Locked s r.id := by
  have hmem := List.mem_filter.mp (Query.mem_of_first h)
  have hguard := of_decide_eq_true hmem.2
  exact ⟨List.mem_map.mp hmem.1, hguard.1, hguard.2.1⟩

/-! ### One step -/

/-- A worker goes on without writing. -/
theorem Inv.set {s : State} (h : Inv s) {w : Nat} {worker other : Worker}
    (hw : s.workers[w]? = some other) (hfits : Fits s worker)
    (hlocks : ∀ id, worker.Locks id → ¬ Locked s id) : Inv (s.set w worker) where
  unique := h.unique
  events := h.events
  fits := by
    intro v x hv
    rw [getElem?_set hw] at hv
    split_ifs at hv with hwv
    · obtain rfl := Option.some.inj hv
      exact hfits
    · exact h.fits v x hv
  exclusive := by
    intro u v x y id hu hv hx hy
    rw [getElem?_set hw] at hu hv
    split_ifs at hu hv with hwu hwv hwv
    · omega
    · obtain rfl := Option.some.inj hu
      exact absurd ⟨y, List.mem_of_getElem? hv, hy⟩ (hlocks id hx)
    · obtain rfl := Option.some.inj hv
      exact absurd ⟨x, List.mem_of_getElem? hu, hx⟩ (hlocks id hy)
    · exact h.exclusive u v x y id hu hv hx hy
  bounded := h.bounded

/-- A worker writes a row nobody has locked. -/
theorem Inv.update {s : State} (h : Inv s) {id : Uuid} {f : Row → Row} (hf : Keeps f)
    (hfree : ¬ Locked s id)
    (hbound : ∀ row ∈ s.rows, row.record.id = id →
      (f row).record.availableAt ≤ s.clock + lease ∧ (f row).writtenAt = s.clock) :
    Inv (s.update id f) where
  unique := by
    rw [map_update (fun row => row.record.id) hf.id]
    exact h.unique
  events := by
    rw [map_update Row.eventKey fun row => by simp [Row.eventKey, hf.payload]]
    exact h.events
  fits := by
    intro w worker hw
    have hfits := h.fits w worker hw
    cases worker with
    | idle => trivial
    | claiming now => exact hfits
    | selected old new =>
      obtain ⟨⟨row, hrow, rfl⟩, hnew⟩ := hfits
      refine ⟨⟨row, mem_update.mpr ⟨row, hrow, ?_⟩, rfl⟩, hnew⟩
      rw [if_neg]
      rintro rfl
      exact hfree ⟨_, List.mem_of_getElem? hw, rfl⟩
    | holding r => exact ⟨hfits.1.update hf, hfits.2⟩
    | settling old new => exact ⟨hfits.1.update hf, hfits.2⟩
  exclusive := h.exclusive
  bounded := by
    intro row' hrow'
    obtain ⟨row, hrow, rfl⟩ := mem_update.mp hrow'
    split_ifs with hid
    · obtain ⟨havailable, hwritten⟩ := hbound row hrow hid
      rw [hwritten]
      exact ⟨havailable, le_refl _⟩
    · exact h.bounded row hrow

/-- A value assigned to `available_at` and the one in the row are both near. -/
theorem availableAt_write_le {old new row : OutboxRecord} {bound : Instant}
    (hnew : new.availableAt = old.availableAt ∨ new.availableAt ≤ bound) (hrow : row.availableAt ≤ bound) :
    (write old new row).availableAt ≤ bound := by
  simp only [write]
  split_ifs with h
  · exact hrow
  · exact hnew.resolve_left h

/-- Time passes, workers and records are added. -/
theorem Inv.grow {s s' : State} (h : Inv s) (hclock : s.clock ≤ s'.clock)
    (hworkers : s'.workers = s.workers ∨ s'.workers = s.workers ++ [.idle])
    (hsub : ∀ row ∈ s.rows, row ∈ s'.rows)
    (hunique : (s'.rows.map fun row => row.record.id).Nodup) (hevents : (s'.rows.map Row.eventKey).Nodup)
    (hbounded : ∀ row ∈ s'.rows, row.record.availableAt ≤ row.writtenAt + lease ∧
      row.writtenAt ≤ s'.clock) : Inv s' := by
  have old : ∀ {w : Nat} {worker : Worker}, s'.workers[w]? = some worker →
      s.workers[w]? = some worker ∨ worker = .idle := by
    intro w worker hw
    rcases hworkers with heq | heq
    · exact .inl (heq ▸ hw)
    · rw [heq, List.getElem?_append] at hw
      split_ifs at hw with hlt
      · exact .inl hw
      · exact .inr (List.mem_singleton.mp (List.mem_of_getElem? hw))
  have known : ∀ {r : OutboxRecord}, Known s r → Known s' r := by
    rintro r ⟨row, hrow, hr⟩
    exact ⟨row, hsub row hrow, hr⟩
  refine ⟨hunique, hevents, ?_, ?_, hbounded⟩
  · intro w worker hw
    rcases old hw with hw | rfl
    · have hfits := h.fits w worker hw
      cases worker with
      | idle => trivial
      | claiming now => exact le_trans hfits hclock
      | selected o n =>
        obtain ⟨⟨row, hrow, hr⟩, now, hnow, hn⟩ := hfits
        exact ⟨⟨row, hsub row hrow, hr⟩, now, le_trans hnow hclock, hn⟩
      | holding r => exact ⟨known hfits.1, hfits.2⟩
      | settling o n =>
        obtain ⟨hknown, hstatus, now, hnow, hn⟩ := hfits
        exact ⟨known hknown, hstatus, now, le_trans hnow hclock, hn⟩
    · trivial
  · intro v w worker other id hv hw hlocks hlocks'
    rcases old hv with hv | rfl
    · rcases old hw with hw | rfl
      · exact h.exclusive v w worker other id hv hw hlocks hlocks'
      · exact hlocks'.elim
    · exact hlocks.elim

theorem Inv.enqueue {s : State} (h : Inv s) {event : AuditEvent} {id : Uuid}
    {availableAt createdAt : Instant} (hfresh : Fresh s event id) (havailable : availableAt ≤ s.clock) :
    Inv {s with rows := s.rows ++ [⟨enqueueAudit event id availableAt createdAt, s.clock, none⟩]} := by
  refine h.grow (le_refl _) (.inl rfl) (fun row hrow => List.mem_append_left _ hrow) ?_ ?_ ?_
  · exact Table.Unique.snoc h.unique fun row hrow => (hfresh row hrow).1
  · exact Table.Unique.snoc h.events fun row hrow => (hfresh row hrow).2
  · intro row hrow
    rcases List.mem_append.mp hrow with hrow | hrow
    · exact h.bounded row hrow
    · obtain rfl := List.mem_singleton.mp hrow
      exact ⟨le_trans havailable (Nat.le_add_right _ _), le_refl _⟩

theorem Inv.commitClaim {s : State} (h : Inv s) {w : Nat} {old new : OutboxRecord}
    (hw : s.workers[w]? = some (.selected old new)) :
    Inv ((s.set w (.holding new)).update old.id (granted s.clock w old new)) := by
  obtain ⟨⟨row, hrow, hold⟩, now, hnow, hnew, -⟩ := h.fits w _ hw
  have hset : Inv (s.set w (.holding new)) := by
    refine h.set hw ⟨⟨row, hrow, ?_, ?_⟩, ?_⟩ (fun id hlock => hlock.elim)
    · rw [hold, hnew]
      rfl
    · rw [hold, hnew]
      rfl
    · rw [hnew]
      rfl
  apply hset.update (keeps_granted _ _ _ _)
  · -- The claim held the only lock on the row, and its commit lets it go.
    rintro ⟨other, hmem, hlocks⟩
    obtain ⟨v, hv⟩ := List.mem_iff_getElem?.mp hmem
    rw [getElem?_set hw] at hv
    split_ifs at hv with hwv
    · obtain rfl := Option.some.inj hv
      exact hlocks
    · exact hwv (h.exclusive w v _ other old.id hw hv rfl hlocks)
  · intro row' hrow' _
    have hbound := h.bounded row' hrow'
    refine ⟨availableAt_write_le (.inr ?_) (le_trans hbound.1 (Nat.add_le_add_right hbound.2 lease)), rfl⟩
    rw [hnew]
    exact Nat.add_le_add_right hnow lease

theorem Inv.commitOutcome {s : State} (h : Inv s) {w : Nat} {old new : OutboxRecord}
    (hw : s.workers[w]? = some (.settling old new)) (hlocked : ¬ Locked s old.id) :
    Inv ((s.set w .idle).update old.id (settled s.clock w old new)) := by
  obtain ⟨-, -, now, hnow, hnew⟩ := h.fits w _ hw
  have hset : Inv (s.set w .idle) := h.set hw trivial (fun id hlock => hlock.elim)
  apply hset.update (keeps_settled _ _ _ _)
  · rintro ⟨other, hmem, hlocks⟩
    obtain ⟨v, hv⟩ := List.mem_iff_getElem?.mp hmem
    rw [getElem?_set hw] at hv
    split_ifs at hv with hwv
    · obtain rfl := Option.some.inj hv
      exact hlocks
    · exact hlocked ⟨other, List.mem_of_getElem? hv, hlocks⟩
  · intro row hrow _
    have hbound := h.bounded row hrow
    refine ⟨availableAt_write_le ?_ (le_trans hbound.1 (Nat.add_le_add_right hbound.2 lease)), rfl⟩
    rcases hnew with rfl | ⟨error, rfl⟩
    · exact .inl rfl
    · exact .inr (le_trans (availableAt_fail_le now error old) (Nat.add_le_add_right hnow lease))

/-- **Every step keeps the invariant.** -/
theorem Inv.step {a : Action} {s s' : State} (h : Inv s) (hs : step a s = some s') : Inv s' := by
  cases next_of_step hs with
  | tick time =>
    refine h.grow (Nat.le_add_right _ _) (.inl rfl) (fun row hrow => hrow) h.unique h.events ?_
    intro row hrow
    have := h.bounded row hrow
    exact ⟨this.1, le_trans this.2 (Nat.le_add_right _ _)⟩
  | boot => exact h.grow (le_refl _) (.inr rfl) (fun row hrow => hrow) h.unique h.events h.bounded
  | enqueue hfresh havailable hcreated => exact h.enqueue hfresh havailable
  | readClock hw => exact h.set hw (le_refl s.clock) (fun id hlock => hlock.elim)
  | select hw hr =>
    obtain ⟨hrow, hclaimable, hfree⟩ := select_some hr
    refine h.set hw ⟨hrow, _, h.fits _ _ hw, rfl, hclaimable⟩ ?_
    rintro id rfl
    exact hfree
  | selectNone hw hr => exact h.set hw trivial (fun id hlock => hlock.elim)
  | commitClaim hw => exact h.commitClaim hw
  | publishOk hw =>
    obtain ⟨hknown, hstatus⟩ := h.fits _ _ hw
    exact h.set hw ⟨hknown, hstatus, s.clock, le_refl _, .inl rfl⟩ (fun id hlock => hlock.elim)
  | publishError error hw =>
    obtain ⟨hknown, hstatus⟩ := h.fits _ _ hw
    exact h.set hw ⟨hknown, hstatus, s.clock, le_refl _, .inr ⟨error, rfl⟩⟩
      (fun id hlock => hlock.elim)
  | commitOutcome hw hlocked => exact h.commitOutcome hw hlocked
  | crash hw => exact h.set hw trivial (fun id hlock => hlock.elim)

/-! ### What later writes leave of a record -/

theorem row_unique {s : State} (h : Inv s) {row row' : Row} (hrow : row ∈ s.rows)
    (hrow' : row' ∈ s.rows) (hid : row.record.id = row'.record.id) : row = row' :=
  List.inj_on_of_nodup_map h.unique hrow hrow' hid

/-- The row of a selected record is as it was selected. -/
theorem selected_row {s : State} (h : Inv s) {w : Nat} {old new : OutboxRecord}
    (hw : s.workers[w]? = some (.selected old new)) {row : Row} (hrow : row ∈ s.rows)
    (hid : row.record.id = old.id) :
    row.record = old ∧ ∃ now ≤ s.clock, new = claim now old ∧ Claimable now old := by
  obtain ⟨⟨row', hrow', rfl⟩, hnew⟩ := h.fits w _ hw
  exact ⟨by rw [row_unique h hrow hrow' hid], hnew⟩

/-- Records stay, with their event. -/
theorem row_kept {a : Action} {s t : State} (hs : step a s = some t) {row : Row} (hrow : row ∈ s.rows) :
    ∃ row' ∈ t.rows, row'.record.payload = row.record.payload := by
  have updated : ∀ {u : State} {id : Uuid} {f : Row → Row}, row ∈ u.rows → Keeps f →
      ∃ row' ∈ (u.update id f).rows, row'.record.payload = row.record.payload := by
    intro u id f hu hf
    refine ⟨_, mem_update.mpr ⟨row, hu, rfl⟩, ?_⟩
    split_ifs
    · exact hf.payload row
    · rfl
  cases next_of_step hs with
  | enqueue => exact ⟨row, List.mem_append_left _ hrow, rfl⟩
  | commitClaim => exact updated hrow (keeps_granted _ _ _ _)
  | commitOutcome => exact updated hrow (keeps_settled _ _ _ _)
  | _ => exact ⟨row, hrow, rfl⟩

/-- A record is published when it was before, or by the worker that commits so. -/
theorem published_step {a : Action} {s t : State} (h : Inv s) (hs : step a s = some t) {row' : Row}
    (hrow' : row' ∈ t.rows) (hpublished : row'.record.status = .published) :
    (∃ row ∈ s.rows, row.record.payload = row'.record.payload ∧ row.record.status = .published) ∨
      ∃ (w : Nat) (old new : OutboxRecord), s.workers[w]? = some (.settling old new) ∧ new.status = .published ∧
        old.payload = row'.record.payload := by
  cases next_of_step hs with
  | enqueue =>
    rcases List.mem_append.mp hrow' with hrow | hrow
    · exact .inl ⟨row', hrow, rfl, hpublished⟩
    · obtain rfl := List.mem_singleton.mp hrow
      cases hpublished
  | commitClaim hw =>
    obtain ⟨row, hrow, rfl⟩ := mem_update.mp hrow'
    split_ifs at hpublished ⊢ with hid
    · obtain ⟨hrecord, now, -, rfl, -⟩ := selected_row h hw hrow hid
      simp only [granted, hrecord, write_claim] at hpublished
      cases hpublished
    · exact .inl ⟨row, hrow, rfl, hpublished⟩
  | @commitOutcome w old new hw hlocked =>
    obtain ⟨row, hrow, rfl⟩ := mem_update.mp hrow'
    split_ifs at hpublished ⊢ with hid
    · obtain ⟨⟨known, hknown, hknownId, hpayload⟩, hstatus, -⟩ := h.fits w _ hw
      obtain rfl := row_unique h hrow hknown (hid.trans hknownId.symm)
      simp only [settled, write, hstatus] at hpublished
      split_ifs at hpublished
      · exact .inl ⟨row, hrow, rfl, hpublished⟩
      · exact .inr ⟨w, old, new, hw, hpublished, hpayload.symm⟩
    · exact .inl ⟨row, hrow, rfl, hpublished⟩
  | _ => exact .inl ⟨row', hrow', rfl, hpublished⟩

/-- A worker is about to publish when it was before, or when its publisher returned. -/
theorem settling_step {a : Action} {s t : State} (hs : step a s = some t) {w : Nat}
    {old new : OutboxRecord} (hw : t.workers[w]? = some (.settling old new))
    (hpublished : new.status = .published) :
    s.workers[w]? = some (.settling old new) ∨
      a = .worker w .publishOk ∧ s.workers[w]? = some (.holding old) := by
  cases next_of_step hs with
  | boot =>
    simp only [List.getElem?_append] at hw
    split_ifs at hw with hlt
    · exact .inl hw
    · cases List.mem_singleton.mp (List.mem_of_getElem? hw)
  | publishOk hv =>
    rw [getElem?_set hv] at hw
    split_ifs at hw with hvw
    · subst hvw
      cases hw
      exact .inr ⟨rfl, hv⟩
    · exact .inl hw
  | publishError error hv =>
    rw [getElem?_set hv] at hw
    split_ifs at hw with hvw
    · cases hw
      simp only [fail] at hpublished
      split_ifs at hpublished
    · exact .inl hw
  | readClock hv | select hv | selectNone hv | commitClaim hv | commitOutcome hv | crash hv =>
    first | rw [getElem?_set hv] at hw | rw [State.update, getElem?_set hv] at hw
    split_ifs at hw with hvw
    · cases hw
    · exact .inl hw
  | _ => exact .inl hw

/-- A step that ends the publish of a worker. -/
def Step.ends : Step → Bool
  | .publishOk | .publishError _ | .crash => true
  | _ => false

/-- A worker holds its record until its publish ends. -/
theorem holding_step {a : Action} {s t : State} (hs : step a s = some t) {w : Nat} {r : OutboxRecord}
    (hw : s.workers[w]? = some (.holding r))
    (hends : ∀ st, a = .worker w st → st.ends = false) : t.workers[w]? = some (.holding r) := by
  cases next_of_step hs with
  | boot =>
    have hlt : w < s.workers.length := (List.getElem?_eq_some_iff.mp hw).1
    simp only [List.getElem?_append_left hlt, hw]
  | publishOk hv | publishError error hv | crash hv =>
    rw [getElem?_set hv, if_neg]
    · exact hw
    · rintro rfl
      exact absurd (hends _ rfl) (by simp [Step.ends])
  | readClock hv | select hv | selectNone hv | commitClaim hv | commitOutcome hv =>
    first | rw [getElem?_set hv, if_neg] | rw [State.update, getElem?_set hv, if_neg]
    · exact hw
    · rintro rfl
      rw [hv] at hw
      cases hw
  | _ => exact hw

theorem inv_reachable {s : State} (h : Reachable Relay.step initial s) : Inv s :=
  h.invariant inv_initial fun _ _ _ hinv hs => hinv.step hs

end Sentinel.Common.Relay
