import Sentinel.Commands.Transactions

/-! What an operation cites of an assessment.

A request for an operation names an assessment and the hash of its input, and the handler
takes both as they are: it looks no assessment up. So an operation is bound to an assessed
input in those runs whose requests were bound already when they were committed
(`operations_bound_iff`, `unassessed`). -/
namespace Sentinel.Commands
open Library Library.Table Library.Transition Library.ReadCommitted Common
open Intelligence (AssessmentCreate ChangeAssessment)
open Operations (Operation OperationCreate)

/-- The assessment is the tenant's, it is the one cited, and the hash cited is the digest of
what is to be done. -/
structure Binds (a : ChangeAssessment) (tenantId assessmentId : Uuid) (hash actionType : String)
    (targetResourceId : Uuid) (parameters : Json) : Prop where
  id : a.id = assessmentId
  tenantId : a.tenantId = tenantId
  inputSha256 : a.inputSha256 = hash
  digest : ∃ given : Json.Object, given.json = parameters ∧
    hash = Intelligence.digest ⟨actionType, targetResourceId, given⟩

/-- An assessment binds what a request asks for, as the table will keep it. -/
def Cites (db : Database) (tenantId : Uuid) (request : OperationCreate) : Prop :=
  ∃ a ∈ db.intelligence.assessments, Binds a tenantId request.assessmentId request.assessmentInputHash
    request.actionType request.targetResourceId request.parameters.json.reload

/-- An assessment binds the operation. -/
def BoundIn (assessments : List ChangeAssessment) (o : Operation) : Prop :=
  ∃ a ∈ assessments, Binds a o.tenantId o.assessmentId o.assessmentInputSha256 o.actionType o.targetResourceId
    o.parametersSnapshot

/-- Every operation is bound to the input it cites. -/
def Bound (db : Database) : Prop := ∀ o ∈ db.operations.operations, BoundIn db.intelligence.assessments o

/-- A request that is committed cites an assessment that binds it. -/
def CitesAssessed (s : System Database Txn) (a : ReadCommitted.Action Start Unit) (_ : System Database Txn) : Prop :=
  match a with
  | .commit i => ∀ actor request idempotencyKey id e o,
    s.running i = some (.operation actor request idempotencyKey id e (.looked (.fresh o))) →
      Cites s.committed actor.tenantId request
  | _ => True

/-- The operation to be inserted is the one requested. -/
def Requested : Txn → Prop
  | .operation actor request idempotencyKey id _ (.looked (.fresh o)) =>
    ∃ definition, o = Operations.newOperation actor request idempotencyKey id definition
  | _ => True

theorem requested_statement {host : Inventory.Host} {db : Database} {t t' : Txn}
    (hs : statement host db t = some t') : Requested t' := by
  unfold statement at hs
  split at hs
  · obtain ⟨stage, -, rfl⟩ := Option.map_eq_some_iff.mp hs
    trivial
  · cases hs
    trivial
  · cases hs
  · obtain ⟨stage, -, rfl⟩ := Option.map_eq_some_iff.mp hs
    trivial
  · cases hs
  · rename_i actor request idempotencyKey id e stage
    obtain ⟨stage', hstage, rfl⟩ := Option.map_eq_some_iff.mp hs
    cases stage with
    | looked u => cases hstage
    | begun =>
      obtain ⟨definition, -, rfl⟩ := Option.map_eq_some_iff.mp hstage
      cases db.operations.operations.find? fun o => o.key = (actor.tenantId, idempotencyKey) with
      | none => exact ⟨definition, rfl⟩
      | some o => trivial

theorem keeps_requested (host : Inventory.Host) :
    Keeps (protocol host) (fun _ => True) (fun _ _ t => Requested t) where
  later := fun _ _ _ h => h
  begin := by
    intro _ _ r _
    cases r <;> trivial
  statement := fun _ _ _ _ _ _ _ hs => requested_statement hs
  commit := fun _ _ _ _ _ _ _ => trivial
  others := fun _ _ _ _ _ _ _ _ h => h

/-! ### Commits -/

/-- No assessment is lost. -/
theorem assessments_grow {db db' : Database} {t : Txn} (h : Commits db t db') :
    ∀ a ∈ db.intelligence.assessments, a ∈ db'.intelligence.assessments := by
  intro a ha
  cases h with
  | @assessment _ _ _ _ intelligence _ hinsert =>
    show a ∈ intelligence.assessments
    rw [Intelligence.insert_assessments hinsert]
    exact List.mem_append_left _ ha
  | _ => exact ha

theorem BoundIn.grow {assessments assessments' : List ChangeAssessment} {o : Operation} (h : BoundIn assessments o)
    (hgrows : ∀ a ∈ assessments, a ∈ assessments') : BoundIn assessments' o := by
  obtain ⟨a, ha, hbinds⟩ := h
  exact ⟨a, hgrows a ha, hbinds⟩

/-- A commit that adds no operation. -/
theorem Bound.other {db db' : Database} (h : Bound db)
    (hgrows : ∀ a ∈ db.intelligence.assessments, a ∈ db'.intelligence.assessments)
    (hoperations : db'.operations.operations = db.operations.operations) : Bound db' := by
  intro o ho
  rw [hoperations] at ho
  exact (h o ho).grow hgrows

/-- The operations stay bound when one is added exactly if it is bound. -/
theorem bound_created {db db' : Database} {actor : ActorContext} {request : OperationCreate} {idempotencyKey : String}
    {id : Uuid} {definition : Operations.ActionDefinition}
    (hinsert : db.operations.insert (Operations.newOperation actor request idempotencyKey id definition) =
      .ok db'.operations) (hsame : db'.intelligence = db.intelligence) (h : Bound db) :
    Bound db' ↔ Cites db actor.tenantId request := by
  unfold Bound
  rw [Operations.insert_operations hinsert, hsame]
  refine ⟨?_, ?_⟩
  · intro hbound
    exact hbound _ (List.mem_append_right _ (List.mem_singleton_self _))
  · intro hcites o ho
    cases List.mem_append.mp ho with
    | inl ho => exact h o ho
    | inr ho =>
      rw [List.mem_singleton.mp ho]
      exact hcites

theorem bound_commit {db db' : Database} {t : Txn} (h : Bound db) (hrequested : Requested t) (hc : Commits db t db') :
    Bound db' ↔ ∀ actor request idempotencyKey id e o,
      t = .operation actor request idempotencyKey id e (.looked (.fresh o)) → Cites db actor.tenantId request := by
  have hgrows := assessments_grow hc
  cases hc with
  | @created actor request idempotencyKey id e o operations outbox hinsert ho =>
    obtain ⟨definition, rfl⟩ := hrequested
    have hbound : Bound ({db with operations := operations, outbox := outbox}.answer actor.tenantId idempotencyKey id) ↔
        Cites db actor.tenantId request := bound_created hinsert rfl h
    apply hbound.trans
    refine ⟨?_, ?_⟩
    · intro hcites _ _ _ _ _ _ heq
      cases heq
      exact hcites
    · exact fun hcites => hcites _ _ _ _ _ _ rfl
  | callback | discover | syncJob | assessment =>
    exact ⟨(fun _ _ _ _ _ _ _ heq => nomatch heq), fun _ => h.other hgrows rfl⟩
  | replayed =>
    refine ⟨fun _ _ _ _ _ _ _ heq => ?_, fun _ => h⟩
    cases heq

theorem bound_step {host : Inventory.Host} {a : ReadCommitted.Action Start Unit} {s t : System Database Txn}
    (hrequested : ∀ i txn, s.running i = some txn → Requested txn) (h : Bound s.committed)
    (hs : (protocol host).step a s = some t) : Bound t.committed ↔ CitesAssessed s a t := by
  cases Protocol.step_cases hs with
  | begin | statement | abort => exact ⟨fun _ => trivial, fun _ => h⟩
  | @commit _ i txn db hi hc =>
    apply (bound_commit h (hrequested i txn hi) (commits_of_commit hc)).trans
    show _ ↔ ∀ actor request idempotencyKey id e o, s.running i = _ → _
    simp only [hi, Option.some.injEq]

/-- **Operations are bound to the input they cite**, all along a run of the commands, exactly
when every request committed in it cites, at that moment, an assessment of its tenant whose
hash is the one it gives and the digest of its own content. -/
theorem operations_bound_iff (host : Inventory.Host) (actions : List (ReadCommitted.Action Start Unit)) :
    Always (protocol host).step (fun s => Bound s.committed) actions (.idle .empty) ↔
      EveryStep (protocol host).step CitesAssessed actions (.idle .empty) := by
  have hstart : Holds (fun _ => True) (fun _ _ t => Requested t) (System.idle Database.empty) := holds_idle trivial
  have hempty : Bound (System.idle (τ := Txn) Database.empty).committed := fun _ ho => nomatch ho
  apply always_iff_everyStep (N := fun _ => True) hstart hempty
  · exact Always.of_invariant actions trivial fun _ _ _ _ _ => trivial
  · exact fun _ _ _ h hs => holds_step (keeps_requested host) h hs
  · exact fun _ _ _ hI _ _ h hs => bound_step hI.running h hs

/-! ### An assessment nobody made -/

/-- A request with a hash of nothing in particular. -/
def sampleRequest : OperationCreate :=
  ⟨6, "sha256:" ++ String.ofList (List.replicate 64 '0'), "azure.vm.stop", 8, ⟨[], Json.wellFormed_empty⟩, "maintenance"⟩

def unassessedRun : List (ReadCommitted.Action Start Unit) :=
  [.begin 0 (.operation ⟨1, 5, 2, 4⟩ sampleRequest "stop-tonight" 60 ⟨80, Datetime.utc 0, 90, 0, 0⟩),
    .statement 0 (), .commit 0]

/-- The operation is committed without an assessment. -/
theorem unassessed : ¬ Always (protocol Inventory.sampleHost).step (fun s => Bound s.committed) unassessedRun
    (.idle .empty) := by
  intro h
  have hend : (run (protocol Inventory.sampleHost).step unassessedRun (.idle .empty)).map
      (fun s => (s.committed.operations.operations.length, s.committed.intelligence.assessments.length)) =
        some (1, 0) := by decide +kernel
  obtain ⟨s, hrun, heq⟩ := Option.map_eq_some_iff.mp hend
  obtain ⟨hone, hnone⟩ := Prod.mk.inj heq
  obtain ⟨o, ho⟩ := List.exists_mem_of_length_pos (lt_of_lt_of_eq Nat.zero_lt_one hone.symm)
  obtain ⟨a, ha, -⟩ := h.last hrun o ho
  rw [List.length_eq_zero_iff.mp hnone] at ha
  cases ha

end Sentinel.Commands
