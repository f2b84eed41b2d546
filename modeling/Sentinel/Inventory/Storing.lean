import Sentinel.Inventory.Batch
import Sentinel.Library.Transition

/-! The storing transaction of a worker, next to others.

Each call of `upsert_resource` queries what is committed by then, with what the transaction
itself has written; its own writes show to others when the transaction commits. They are kept
as a list that is replayed on the committed tables, for the next query and at the commit. An
`UPDATE` sends the values of the object the session had in memory (`Batch.object`), which may
be an older one than the row the query found. The row of the job, which the transaction
updates last, is left out. With nobody else on the tables, the transaction does what its calls
do in one session (`finish_of_upsertAll`). -/
namespace Sentinel.Inventory
open Library Common

/-- What a call writes: the group that was to be flushed, and its resource. -/
inductive ResourceWrite where
  | group (w : GroupWrite)
  | insert (subscriptionId : Uuid) (draw : Draw) (v : ItemValues)
  | update (v : ItemValues) (loaded : Resource)

structure Storing where
  remaining : List Call
  writes : List ResourceWrite
  held : List Resource
  pending : Option GroupWrite

/-- The transaction begins. -/
def Storing.begun (calls : List Call) : Storing := ⟨calls, [], [], none⟩

section Storing
variable (host : Host) (session : Session) (tenantId : Uuid)

def writeResource (w : ResourceWrite) (s : Store) : Except Failure Store :=
  match w with
  | .group w => flush s (some w)
  | .insert subscriptionId draw v => s.insertResource (newResource draw tenantId subscriptionId v).stored
  | .update v loaded => .ok (s.updateResources (rewritten v loaded) (keeps_rewritten v loaded))

def writeAllResources : List ResourceWrite → Store → Except Failure Store
  | [], s => .ok s
  | w :: rest, s => (writeResource tenantId w s).bind (writeAllResources rest)

/-- The write to the resource of a call. -/
def Batch.resourceWrite (call : Call) (b : Batch) : ResourceWrite :=
  match findResource session tenantId (call.values host).normalizedResourceId b.store with
  | none => .insert call.subscriptionId call.draw (call.values host)
  | some row => .update (call.values host) (b.object row)

def flushed (pending : Option GroupWrite) : List ResourceWrite := (pending.map .group).toList

/-- The next call; what it does is decided by the tables as the transaction sees them. -/
def Storing.next (t : Storing) (s : Store) : Option Storing :=
  match t.remaining with
  | [] => none
  | call :: rest => do
    let view ← (writeAllResources tenantId t.writes s).toOption
    let (_, _, b) ← (Batch.upsert host session tenantId call ⟨view, t.held, t.pending⟩).toOption
    return {
      remaining := rest
      writes := t.writes ++ flushed t.pending ++
        [Batch.resourceWrite host session tenantId call ⟨view, t.held, t.pending⟩]
      held := b.held
      pending := b.pending }

/-- The tables after the commit. -/
def Storing.finish (t : Storing) (s : Store) : Except Failure Store :=
  match t.remaining with
  | [] => writeAllResources tenantId (t.writes ++ flushed t.pending) s
  | _ :: _ => .error .refused

end Storing

variable {host : Host} {session : Session} {tenantId : Uuid} {call : Call} {b b' : Batch} {r : Resource}
  {changed : Bool} {s s' : Store}

theorem writeAllResources_append {first second : List ResourceWrite} :
    writeAllResources tenantId (first ++ second) s =
      (writeAllResources tenantId first s).bind (writeAllResources tenantId second) := by
  induction first generalizing s with
  | nil => rfl
  | cons w rest ih =>
    simp only [List.cons_append, writeAllResources]
    cases writeResource tenantId w s with
    | error f => rfl
    | ok u => exact ih

theorem writeAllResources_flushed (pending : Option GroupWrite) :
    writeAllResources tenantId (flushed pending) s = flush s pending := by
  cases pending with
  | none => rfl
  | some w =>
    simp only [flushed, Option.map_some, Option.toList_some, writeAllResources, writeResource]
    cases flush s (some w) <;> rfl

theorem flush_subscriptions {pending : Option GroupWrite} (h : flush s pending = .ok s') :
    s'.subscriptions = s.subscriptions := by
  unfold flush at h
  split at h
  · cases h
    rfl
  · split_ifs at h
    exact (insertGroup_rows h).2.1
  · cases h
    rfl

/-- A call comes to the writes that are listed for it. -/
theorem Upserts.writes (h : Upserts host session tenantId call b r changed b') :
    writeAllResources tenantId (flushed b.pending ++ [b.resourceWrite host session tenantId call]) b.store =
      .ok b'.store := by
  rw [writeAllResources_append, writeAllResources_flushed]
  cases h with
  | inserted hid htaken hfind hflush hr hsees hinsert =>
    subst hr
    rw [hflush]
    simp only [Except.bind, Batch.resourceWrite, hfind, writeAllResources, writeResource, hinsert]
  | updated hid htaken hfind hflush hr ht =>
    subst ht
    rw [hflush]
    simp only [Except.bind, Batch.resourceWrite, hfind, writeAllResources, writeResource]

/-- What a call that is taken comes to. -/
theorem next_eq_some {t t' : Storing} (h : t.next host session tenantId s = some t') :
    ∃ call rest view r changed b, t.remaining = call :: rest ∧ writeAllResources tenantId t.writes s = .ok view ∧
      Upserts host session tenantId call ⟨view, t.held, t.pending⟩ r changed b ∧
      t' = ⟨rest, t.writes ++ flushed t.pending ++
        [Batch.resourceWrite host session tenantId call ⟨view, t.held, t.pending⟩], b.held, b.pending⟩ := by
  unfold Storing.next at h
  split at h
  case h_1 => cases h
  case h_2 call rest hremaining =>
    obtain ⟨view, hview, h⟩ := Option.bind_eq_some_iff.mp h
    obtain ⟨⟨r, changed, b⟩, hupsert, h⟩ := Option.bind_eq_some_iff.mp h
    cases h
    exact ⟨call, rest, view, r, changed, b, hremaining, Fallible.toOption_eq_some.mp hview,
      upserts_of_upsert (Fallible.toOption_eq_some.mp hupsert), rfl⟩

/-! ### With nobody else on the tables -/

theorem next_of_upsert {t : Storing} {rest : List Call} {view : Store} {b : Batch}
    (hremaining : t.remaining = call :: rest)
    (hview : writeAllResources tenantId t.writes s = .ok view)
    (h : Batch.upsert host session tenantId call ⟨view, t.held, t.pending⟩ = .ok (r, changed, b)) :
    t.next host session tenantId s = some ⟨rest, t.writes ++ flushed t.pending ++
      [Batch.resourceWrite host session tenantId call ⟨view, t.held, t.pending⟩], b.held, b.pending⟩ := by
  unfold Storing.next
  rw [hremaining]
  simp [hview, h, Except.toOption]

/-- The calls that are left do what they do in a session of their own. -/
theorem run_of_batch {calls : List Call} {t : Storing} {view : Store} {n : Nat} (hremaining : t.remaining = calls)
    (hview : writeAllResources tenantId t.writes s = .ok view)
    (h : Batch.run host session tenantId calls ⟨view, t.held, t.pending⟩ = .ok (n, b)) :
    ∃ u, Transition.run (fun _ t => Storing.next host session tenantId t s) calls t = some u ∧ u.remaining = [] ∧
      writeAllResources tenantId u.writes s = .ok b.store ∧ u.pending = b.pending := by
  induction calls generalizing t view n with
  | nil =>
    cases h
    exact ⟨t, rfl, hremaining, hview, rfl⟩
  | cons call rest ih =>
    obtain ⟨r, changed, c, count, hupsert, hrest, -⟩ := run_cons_eq_ok.mp h
    have hnext := next_of_upsert hremaining hview hupsert
    have hwrites : writeAllResources tenantId (t.writes ++ flushed t.pending ++
        [Batch.resourceWrite host session tenantId call ⟨view, t.held, t.pending⟩]) s = .ok c.store := by
      rw [List.append_assoc, writeAllResources_append, hview]
      exact (upserts_of_upsert hupsert).writes
    obtain ⟨u, hrun, hdone⟩ := ih (t := ⟨rest, _, c.held, c.pending⟩) rfl hwrites hrest
    refine ⟨u, ?_, hdone⟩
    rw [Transition.run_cons, hnext]
    exact hrun

/-- **Alone**, the transaction does what its calls do in one session. -/
theorem finish_of_upsertAll {calls : List Call} {n : Nat} (h : upsertAll host session tenantId calls s = .ok (n, s')) :
    ∃ t, Transition.run (fun _ t => Storing.next host session tenantId t s) calls (.begun calls) = some t ∧
      t.finish tenantId s = .ok s' := by
  obtain ⟨b, hrun, hflush⟩ := upsertAll_eq_ok.mp h
  obtain ⟨t, ht, hremaining, hwrites, hpending⟩ := run_of_batch (t := .begun calls) rfl rfl hrun
  refine ⟨t, ht, ?_⟩
  unfold Storing.finish
  rw [hremaining]
  dsimp only
  rw [writeAllResources_append, hwrites, hpending]
  exact writeAllResources_flushed b.pending |>.trans hflush

end Sentinel.Inventory
