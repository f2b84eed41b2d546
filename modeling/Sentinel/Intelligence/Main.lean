import Sentinel.Common.Context
import Sentinel.Library.Jsonb
import Sentinel.Library.Sha256

/-! The change intelligence service: its table, and `create_assessment`. -/
namespace Sentinel.Intelligence
open Library Library.Table Common

inductive AssessmentStatus where
  | draft
  | assessing
  | assessed
  | failed
  | cancelled
  | expired

structure ChangeAssessment where
  id : Uuid
  tenantId : Uuid
  requestedBy : Uuid
  targetResourceId : Uuid
  actionType : String
  parameters : Json
  status : AssessmentStatus
  canonicalInput : Json
  inputSha256 : String
  correlationId : Uuid

structure Store where
  assessments : List ChangeAssessment
  ids : Unique ChangeAssessment.id assessments

/-- Why a statement failed. -/
inductive Failure where
  /-- A column does not take the value. -/
  | refused
  | primaryKey
  deriving DecidableEq

def Store.empty : Store := ⟨[], unique_nil⟩

/-- What the columns take. -/
def ChangeAssessment.taken (a : ChangeAssessment) : Bool :=
  [a.actionType, a.inputSha256].all Json.storableText && a.parameters.storable && a.canonicalInput.storable

/-- What the table keeps of an assessment. -/
def ChangeAssessment.stored (a : ChangeAssessment) : ChangeAssessment :=
  {a with parameters := a.parameters.reload, canonicalInput := a.canonicalInput.reload}

/-- The INSERT. The `status` column is an ENUM of the database and a text of the ORM; it is
assumed to take the text it is sent. -/
def Store.insert (s : Store) (a : ChangeAssessment) : Except Failure Store :=
  if !a.taken then .error .refused
  else if hid : a.id ∈ s.assessments.map ChangeAssessment.id then .error .primaryKey
  else .ok ⟨s.assessments ++ [a.stored], unique_snoc.mpr ⟨hid, s.ids⟩⟩

theorem insert_assessments {s s' : Store} {a : ChangeAssessment} (h : s.insert a = .ok s') :
    s'.assessments = s.assessments ++ [a.stored] := by
  unfold Store.insert at h
  split_ifs at h
  cases h
  rfl

/-! ### The handler -/

structure AssessmentCreate where
  actionType : String
  targetResourceId : Uuid
  parameters : Json.Object

/-- `canonical`. -/
def canonical (request : AssessmentCreate) : Json :=
  .obj [("action_type", .str request.actionType), ("target_resource_id", .str request.targetResourceId.str),
    ("parameters", request.parameters.json)]

def digest (request : AssessmentCreate) : String := "sha256:" ++ Sha256.hexdigest (canonical request).dumps

def newAssessment (actor : ActorContext) (request : AssessmentCreate) (id : Uuid) : ChangeAssessment where
  id := id
  tenantId := actor.tenantId
  requestedBy := actor.actorId
  targetResourceId := request.targetResourceId
  actionType := request.actionType
  parameters := request.parameters.json
  status := .draft
  canonicalInput := canonical request
  inputSha256 := digest request
  correlationId := actor.correlationId

def assessmentRequested (actor : ActorContext) (request : AssessmentCreate) (a : ChangeAssessment) (e : Envelope) :
    AuditEvent where
  id := e.eventId
  source := "change-intelligence-service"
  type := "intelligence.assessment-requested.v1"
  subject := "assessment/" ++ a.id.str
  time := e.time
  tenantId := actor.tenantId
  correlationId := actor.correlationId
  data := ⟨[("action_type", .str request.actionType), ("input_sha256", .str (digest request))],
    by simp [Json.WellFormed]⟩
  actorType := "user"
  actorId := actor.actorId.str
  action := "assessment.create"
  entityType := "assessment"
  entityId := some a.id.str
  outcome := "accepted"

end Sentinel.Intelligence
