import Sentinel.Audit.IngestProofs

/-! Is the hash chain of a tenant linear?

The predecessor of a row is the row with the latest `(ingested_at, id)`, and
`ingested_at` is when a transaction began, not when it got the lock. So a transaction that
began early and committed late leaves a row that later transactions do not see as the
last: they fork the chain before it (`chain_forked`). The chain is linear exactly in the
runs where every row commits after a row that is the latest (`chain_linear_iff`). -/
namespace Sentinel.Audit.Ingest
open Library Library.Transition Common

/-- The rows are one chain, no two of them with one predecessor and one of them at most
with none. -/
structure LinearChain (rows : List AuditLog) : Prop where
  ordered : HashChain.Chainable AuditLog.previousHash AuditLog.recordHash rows
  noFork : (rows.map AuditLog.previousHash).Nodup

/-- The chain of every tenant is linear. -/
def Linear (s : State) : Prop := ∀ tenantId, LinearChain (ofTenant tenantId s.tables.logs)

/-- When a transaction commits a row of a tenant, the last committed row of the tenant is
later in `(ingested_at, id)` than those before it. -/
def LastIsLatest (s : State) (a : Action) (_ : State) : Prop :=
  ∀ i t log activity, a = .move i .commit → s.txns[i]? = some t → t.phase = .flushed log activity →
    ∀ init last, ofTenant t.event.tenantId s.tables.logs = init ++ [last] →
      ∀ r ∈ init, ¬ latestFirst r last

/-- SHA-256 did not collide on the texts hashed so far. -/
def NoCollision (s : State) : Prop := Sha256.CollisionFree {text | text ∈ s.hashed}

variable {host : Host}

theorem noCollision_back {a : Action} {s s' : State} (hs : step host a s = some s')
    (h : NoCollision s') : NoCollision s := by
  apply h.mono
  intro text htext
  cases next_of_step hs with
  | insert => exact List.mem_cons_of_mem _ htext
  | _ => exact htext

/-- Record hashes bind the predecessor among rows that `ingest` wrote. -/
theorem binding_of_noCollision {s : State} (h : Inv host s) (hfree : NoCollision s)
    (tenantId : Uuid) :
    HashChain.Binding AuditLog.previousHash AuditLog.recordHash (ofTenant tenantId s.tables.logs) := by
  intro r hr r' hr' heq
  obtain ⟨event, htext, hhash, -⟩ := h.written r (mem_ofTenant.mp hr).1
  obtain ⟨event', htext', hhash', -⟩ := h.written r' (mem_ofTenant.mp hr').1
  rw [hhash, hhash'] at heq
  exact (Canonical.agrees_of_recordHash_eq hfree htext htext' heq).previousHash

/-- In a reachable state a linear chain stands in commit order. -/
theorem linked_of_linear {s : State} (h : Inv host s) {tenantId : Uuid}
    (hlinear : LinearChain (ofTenant tenantId s.tables.logs)) :
    HashChain.Linked AuditLog.previousHash AuditLog.recordHash none (ofTenant tenantId s.tables.logs) :=
  HashChain.linked_of_grown (h.grown tenantId) hlinear.noFork

theorem linear_of_linked {rows : List AuditLog}
    (h : HashChain.Linked AuditLog.previousHash AuditLog.recordHash none rows)
    (hb : HashChain.Binding AuditLog.previousHash AuditLog.recordHash rows) : LinearChain rows :=
  ⟨⟨rows, .refl _, h⟩, h.nodup_previous hb⟩

/-- The predecessor `ingest` reads has the hash of the last committed row exactly when that
row is the latest. -/
theorem tip_eq_iff {rows : List AuditLog} (hn : (rows.map AuditLog.recordHash).Nodup) :
    (Query.first latestFirst rows).map AuditLog.recordHash =
        HashChain.tip AuditLog.recordHash none rows ↔
      ∀ init last, rows = init ++ [last] → ∀ r ∈ init, ¬ latestFirst r last := by
  rw [HashChain.tip_eq_getLast?]
  refine ⟨?_, ?_⟩
  · rintro heq init last rfl r hr hbefore
    -- The last row is not the first of the order, so its hash appears twice.
    rw [Query.first_snoc_of_before hr hbefore, List.getLast?_append_cons] at heq
    simp only [List.getLast?_singleton, Option.map_some, Option.map_eq_some_iff] at heq
    obtain ⟨p, hp, hhash⟩ := heq
    exact (Table.unique_snoc.mp hn).1 (List.mem_map.mpr ⟨p, Query.mem_of_first hp, hhash⟩)
  · intro hlatest
    rcases List.eq_nil_or_concat rows with rfl | ⟨init, last, rfl⟩
    · rfl
    · rw [List.concat_eq_append] at hlatest ⊢
      rw [Query.first_snoc]
      cases hp : Query.first latestFirst init with
      | none => simp
      | some p =>
        have := hlatest init last rfl p (Query.mem_of_first hp)
        simp [this]

/-- A commit keeps the chains linear exactly when it comes after the latest row. -/
theorem linear_commit_iff {s s' : State} {a : Action} (h : Inv host s) (h' : Inv host s')
    (hfree : NoCollision s') (hlinear : Linear s) (hs : step host a s = some s') :
    Linear s' ↔ LastIsLatest s a s' := by
  cases next_of_step hs with
  | @commit i t log activity ht hp =>
    obtain ⟨hkey, hprevious, -⟩ := h.flushed ht hp
    have htenant : log.tenantId = t.event.tenantId := (Prod.mk.inj hkey).1
    -- Only the chain of the event's tenant gets a row.
    have hrowsOf : ∀ tenantId, ofTenant tenantId (s.tables.insert log activity).logs =
        ofTenant tenantId s.tables.logs ++ if t.event.tenantId = tenantId then [log] else [] := by
      intro tenantId
      rw [Tables.insert, ofTenant_append, ofTenant_singleton, htenant]
    have hown := hrowsOf t.event.tenantId
    rw [if_pos rfl] at hown
    have hlinked := linked_of_linear h (hlinear t.event.tenantId)
    have hbinding' := binding_of_noCollision h' hfree t.event.tenantId
    have hn : ((ofTenant t.event.tenantId s.tables.logs).map AuditLog.recordHash).Nodup :=
      hlinked.nodup_digest (binding_of_noCollision h (noCollision_back hs hfree) _)
    have hcondition : LastIsLatest s (.move i .commit)
        {s.advance i t (.committed log) with tables := s.tables.insert log activity} ↔
        log.previousHash =
          HashChain.tip AuditLog.recordHash none (ofTenant t.event.tenantId s.tables.logs) := by
      rw [hprevious, State.tip, previous, tip_eq_iff hn]
      refine ⟨?_, ?_⟩
      · intro hlast
        exact hlast i t log activity rfl ht hp
      · rintro hlast j u log' activity' ⟨⟩ hu hp'
        obtain rfl := Option.some.inj (ht.symm.trans hu)
        exact hlast
    rw [hcondition]
    refine ⟨?_, ?_⟩
    · intro hall
      have hnext := linked_of_linear h' (hall t.event.tenantId)
      simp only [hown] at hnext
      exact ((HashChain.linked_snoc none _ log).mp hnext).2
    · intro htip tenantId
      by_cases heq : t.event.tenantId = tenantId
      · subst heq
        refine linear_of_linked ?_ hbinding'
        simp only [hown]
        exact (HashChain.linked_snoc none _ log).mpr ⟨hlinked, htip⟩
      · have hsame := hrowsOf tenantId
        rw [if_neg heq, List.append_nil] at hsame
        simp only [hsame]
        exact hlinear tenantId
  | confirm ht hp =>
    refine ⟨fun _ => ?_, fun _ => hlinear⟩
    rintro i t log activity ⟨⟩ ht' hp'
    obtain rfl := Option.some.inj (ht.symm.trans ht')
    rw [hp] at hp'
    cases hp'
  | _ =>
    refine ⟨fun _ => ?_, fun _ => hlinear⟩
    rintro i t log activity ⟨⟩

/-- **The audit chain is linear** all along a run exactly when every row of the run commits
after the latest row of its tenant. -/
theorem chain_linear_iff {actions : List Action} {s : State}
    (hrun : run (step host) actions initial = some s) (hfree : NoCollision s) :
    Always (step host) Linear actions initial ↔ EveryStep (step host) LastIsLatest actions initial := by
  refine always_iff_everyStep (I := Inv host) (N := NoCollision) inv_initial ?_ ?_ ?_ ?_
  · intro tenantId
    exact ⟨⟨[], .refl _, trivial⟩, by simp [initial, ofTenant]⟩
  · exact Always.of_last (fun _ _ _ => noCollision_back) hrun hfree
  · exact fun _ _ _ hinv hs => hinv.step hs
  · exact fun _ _ _ hinv hinv' hN hP hs => linear_commit_iff hinv hinv' hN hP hs

/-! ### A fork -/

/-- Transaction `i` from its first query to the commit. -/
def ingestMoves (i : Nat) (id activityId : Uuid) : List Action :=
  [.move i .check, .move i .lock, .move i .choose, .move i (.insert id activityId), .move i .commit]

/-- Transaction 0 begins first and commits second; transaction 2 comes after both. -/
def forkingRun : List Action :=
  [.start (syncRequested 1 0), .tick 1, .start (syncRequested 2 0)] ++ ingestMoves 1 11 21 ++
    ingestMoves 0 10 20 ++ [.tick 1, .start (syncRequested 3 0)] ++ ingestMoves 2 12 22

/-- A run that leaves the chain of its tenant forked: the row of transaction 2 names the row
of transaction 1, as that of transaction 0 does. -/
theorem chain_forked : ∃ s, run (step sampleHost) forkingRun initial = some s ∧ ¬ Linear s := by
  have hfork : (run (step sampleHost) forkingRun initial).any (fun s =>
      ¬ ((ofTenant 3 s.tables.logs).map AuditLog.previousHash).Nodup) = true := by decide +kernel
  obtain ⟨s, hrun⟩ := Option.isSome_iff_exists.mp (Option.isSome_of_any hfork)
  rw [hrun, Option.any_some, decide_eq_true_eq] at hfork
  exact ⟨s, hrun, fun hlinear => hfork (hlinear 3).noFork⟩

/-- Two requests of one tenant, one after the other. -/
def sequentialRun : List Action :=
  .start (syncRequested 1 0) :: ingestMoves 0 10 20 ++
    .tick 1 :: .start (syncRequested 2 0) :: ingestMoves 1 11 21

theorem chain_linear_iff_sequentialRun :
    Always (step sampleHost) Linear sequentialRun initial ↔
      EveryStep (step sampleHost) LastIsLatest sequentialRun initial := by
  have hdigests : (run (step sampleHost) sequentialRun initial).any (fun s =>
      (s.hashed.map Sha256.hexdigest).Nodup) = true := by decide +kernel
  obtain ⟨s, hrun⟩ := Option.isSome_iff_exists.mp (Option.isSome_of_any hdigests)
  rw [hrun, Option.any_some, decide_eq_true_eq] at hdigests
  exact chain_linear_iff hrun (List.inj_on_of_nodup_map hdigests)

end Sentinel.Audit.Ingest
