import Sentinel.Commands.Transactions

/-! One operation a key.

Two requests with one key may both look it up before either has inserted. The constraint
lets one of them commit, with the row, its record and its answer; the other can only fail,
and leaves nothing. -/
namespace Sentinel.Commands
open Library Library.Table Library.Transition Library.ReadCommitted Common
open Operations (Operation)

def created : String := "operations.created.v1"

/-- What a record names: a tenant and an entity. -/
def eventName (event : AuditEvent) : Uuid × Option String := (event.tenantId, event.entityId)

/-- What the record of an operation names. -/
def operationName (o : Operation) : Uuid × Option String := (o.tenantId, some o.id.str)

/-- At most one operation a key, one record an operation, and answers with its id. -/
structure Idempotent (db : Database) : Prop where
  one : Unique Operation.key db.operations.operations
  recorded : Paired eventName operationName (db.outbox.events created) db.operations.operations
  answered : ∀ a ∈ db.answers, ∃ o ∈ db.operations.operations, o.key = (a.1, a.2.1) ∧ o.id = a.2.2

/-- What a request has looked up is there, or to be inserted under its key. -/
def LookedUp (db : Database) : Txn → Prop
  | .operation actor _ idempotencyKey _ _ (.looked u) =>
    u.row.key = (actor.tenantId, idempotencyKey) ∧ (u.isFresh ∨ u.row ∈ db.operations.operations)
  | _ => True

theorem LookedUp.grow {db db' : Database} {t : Txn} (h : LookedUp db t)
    (hgrows : ∀ o ∈ db.operations.operations, o ∈ db'.operations.operations) : LookedUp db' t := by
  cases t with
  | operation actor request idempotencyKey id e stage =>
    cases stage with
    | begun => trivial
    | looked u => exact ⟨h.1, h.2.imp_right (hgrows _)⟩
  | _ => trivial

/-- No operation is lost. -/
theorem operations_grow {db db' : Database} {t : Txn} (h : Commits db t db') :
    ∀ o ∈ db.operations.operations, o ∈ db'.operations.operations := by
  cases h with
  | @created _ _ _ _ _ _ operations _ hinsert =>
    intro o ho
    show o ∈ operations.operations
    rw [Operations.insert_operations hinsert]
    exact List.mem_append_left _ ho
  | _ => exact fun o ho => ho

theorem lookedUp_statement {host : Inventory.Host} {db : Database} {t t' : Txn} (h : LookedUp db t)
    (hs : statement host db t = some t') : LookedUp db t' := by
  unfold statement at hs
  split at hs
  · obtain ⟨stage, -, rfl⟩ := Option.map_eq_some_iff.mp hs
    trivial
  · cases hs
    trivial
  · cases hs
  · obtain ⟨stage, -, rfl⟩ := Option.map_eq_some_iff.mp hs
    trivial
  · cases hs
  · rename_i actor request idempotencyKey id e stage
    obtain ⟨stage', hstage, rfl⟩ := Option.map_eq_some_iff.mp hs
    unfold Operations.create at hstage
    split at hstage
    · obtain ⟨definition, -, rfl⟩ := Option.map_eq_some_iff.mp hstage
      cases hfind : db.operations.operations.find? fun o => o.key = (actor.tenantId, idempotencyKey) with
      | none => exact ⟨rfl, .inl rfl⟩
      | some o =>
        have hkey : o.key = (actor.tenantId, idempotencyKey) := by simpa using List.find?_some hfind
        exact ⟨hkey, .inr (List.mem_of_find?_eq_some hfind)⟩
    · cases hstage

theorem operationName_unique (s : Operations.Store) : Unique operationName s.operations := by
  refine s.ids.finer fun o q heq => ?_
  exact Uuid.str_inj (Option.some.inj (congrArg Prod.snd heq))

/-- A commit that is about no operation. -/
theorem Idempotent.other {db db' : Database} (h : Idempotent db) (hoperations : db'.operations = db.operations)
    (hanswers : db'.answers = db.answers) (hevents : db'.outbox.events created = db.outbox.events created) :
    Idempotent db' := by
  refine ⟨?_, ?_, ?_⟩
  · rw [hoperations]
    exact h.one
  · rw [hevents, hoperations]
    exact h.recorded
  · rw [hanswers, hoperations]
    exact h.answered

theorem Idempotent.commit {db db' : Database} {t : Txn} (h : Idempotent db) (hlooked : LookedUp db t)
    (hc : Commits db t db') : Idempotent db' := by
  cases hc with
  | callback hw ho => exact h.other rfl rfl (Outbox.events_other ho (by simp [userSynchronized, created]))
  | discover hw => exact h.other rfl rfl rfl
  | syncJob hw ho => exact h.other rfl rfl (Outbox.events_other ho (by simp [Inventory.jobRequested, created]))
  | assessment hw ho =>
    exact h.other rfl rfl (Outbox.events_other ho (by simp [Intelligence.assessmentRequested, created]))
  | @replayed actor request idempotencyKey id e o =>
    obtain ⟨hkey, hfresh | hmem⟩ := hlooked
    · cases hfresh
    · refine ⟨h.one, h.recorded, fun a ha => ?_⟩
      rcases List.mem_append.mp ha with ha | ha
      · exact h.answered a ha
      · obtain rfl := List.mem_singleton.mp ha
        exact ⟨o, hmem, hkey, rfl⟩
  | @created actor request idempotencyKey id e o operations outbox hinsert ho =>
    have hrows := Operations.insert_operations hinsert
    have hkey : o.key = (actor.tenantId, idempotencyKey) := hlooked.1
    have hevents : outbox.events created =
      db.outbox.events created ++ [Operations.operationCreated actor request o e] := Outbox.events_same ho rfl
    refine ⟨operations.keys, ?_, fun a ha => ?_⟩
    · show Paired _ _ (outbox.events _) operations.operations
      rw [hevents, hrows]
      apply h.recorded.snoc
      · rw [← hrows]
        exact operationName_unique operations
      · exact Prod.ext (congrArg Prod.fst hkey).symm rfl
    · show ∃ o ∈ operations.operations, _
      rw [hrows]
      rcases List.mem_append.mp ha with ha | ha
      · obtain ⟨q, hq, hqa⟩ := h.answered a ha
        exact ⟨q, List.mem_append_left _ hq, hqa⟩
      · obtain rfl := List.mem_singleton.mp ha
        exact ⟨o.stored, List.mem_append_right _ (List.mem_singleton_self _), hkey, rfl⟩

theorem keeps_idempotent (host : Inventory.Host) :
    Keeps (protocol host) Idempotent (fun _ db t => LookedUp db t) where
  later := fun _ _ _ h => h
  begin := by
    intro _ _ r _
    cases r <;> trivial
  statement := fun _ _ _ _ _ _ h hs => lookedUp_statement h hs
  commit := fun _ _ _ _ h hlooked hc => h.commit hlooked (commits_of_commit hc)
  others := fun _ _ _ _ _ _ _ hc hlooked => hlooked.grow (operations_grow (commits_of_commit hc))

theorem idempotent_empty : Idempotent .empty := ⟨unique_nil, paired_nil, fun _ ha => nomatch ha⟩

/-- Only a commit changes what is committed. -/
theorem committed_of_step {p : Protocol Database Txn Start Unit} {a : ReadCommitted.Action Start Unit}
    {s t : System Database Txn} (hs : p.step a s = some t) (ha : ∀ i, a ≠ .commit i) :
    t.committed = s.committed := by
  cases Protocol.step_cases hs with
  | commit => exact absurd rfl (ha _)
  | _ => rfl

/-- **Creating operations is idempotent**: in every run of the commands there is at most one
operation for a tenant and a key, exactly one record for each and none for another, and
every answer for the key carries its id; and what is not committed adds nothing. -/
theorem operations_idempotent (host : Inventory.Host) (actions : List (ReadCommitted.Action Start Unit)) :
    Always (protocol host).step (fun s => Idempotent s.committed) actions (.idle .empty) ∧
      EveryStep (protocol host).step (fun s a t => (∀ i, a ≠ .commit i) → t.committed = s.committed) actions
        (.idle .empty) := by
  have hstart : Holds Idempotent (fun _ db t => LookedUp db t) (System.idle Database.empty) :=
    holds_idle idempotent_empty
  refine ⟨?_, ?_⟩
  · refine Always.mono (fun s hs => hs.committed) (Always.of_invariant actions hstart ?_)
    exact fun _ _ _ h hs => holds_step (keeps_idempotent host) h hs
  · refine EveryStep.of_invariant (I := fun _ => True) actions trivial (fun _ _ _ _ _ => trivial) ?_
    exact fun _ _ _ _ hs ha => committed_of_step hs ha

end Sentinel.Commands
