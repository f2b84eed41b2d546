import Sentinel.Inventory.Worker
import Sentinel.Relationships.Service

/-! From the subscriptions to the graph: the inventory workers and the relationship service
together.

A worker posts the resources a job stored, one after the other, and then asks for a rebuild.
A request is a unit of work of the service, which may come to it late, when the worker has
given up, or never; a worker goes on only with a 2xx answer.

The service serves one request at a time: a unit of work, from its first statement to its
commit, is one step here. Two units whose statements interleave are no run of this machine;
there, two first projections of one resource would both insert its node. -/
namespace Sentinel.Pipeline
open Library Library.Transition Common
open Relationships (ResourceProjectionEvent)

/-- `internal_api_token`, as the workers have it and as the service does. -/
structure Settings where
  worker : Option String
  service : Option String

inductive Request where
  | resource (p : Inventory.Projection)
  | rebuild (tenantId : Uuid)

inductive Refusal where
  /-- The body is no event. -/
  | unprocessable
  | unauthorized
  | failed (f : Relationships.Failure)

structure Call where
  request : Request
  response : Option (Except Refusal Unit)

structure State where
  inventory : Inventory.State
  graph : Relationships.Store
  calls : List Call
  /-- The call a worker waits for. -/
  waiting : Nat → Option Nat
  /-- The events that were projected, for the properties alone, as is what Azure listed last
  for the job of a worker. -/
  accepted : List ResourceProjectionEvent
  listed : Nat → List Json.Object

inductive Action where
  | inventory (a : Inventory.Action)
  | post (w : Nat)
  | serve (i : Nat) (host : Relationships.Host)

/-! ### The bodies -/

def payload (p : Inventory.Projection) : List (String × Json) :=
  [("tenant_id", .str p.tenantId.str),
    ("inventory_resource_id", .str p.inventoryResourceId.str),
    ("azure_resource_id", .str p.azureResourceId),
    ("name", .str p.name),
    ("resource_type", .str p.resourceType),
    ("resource_group", .str p.resourceGroup),
    ("properties", p.properties)]

section Fields
variable (body : List (String × Json)) (key : String)

def textField : Option String :=
  match body.lookup key with
  | some (.str text) => some text
  | _ => none

def uuidField : Option Uuid := (textField body key).bind Uuid.ofStr

def dictField : Option Json.Object :=
  match body.lookup key with
  | some (.obj members) => if h : Json.WellFormed (.obj members) then some ⟨members, h⟩ else none
  | _ => none

end Fields

/-- `ResourceProjectionEvent.model_validate`. -/
def modelValidate (body : List (String × Json)) : Option ResourceProjectionEvent := do
  return {
    tenantId := ← uuidField body "tenant_id"
    inventoryResourceId := ← uuidField body "inventory_resource_id"
    azureResourceId := ← textField body "azure_resource_id"
    name := ← textField body "name"
    resourceType := ← textField body "resource_type"
    resourceGroup := ← textField body "resource_group"
    properties := ← dictField body "properties" }

/-- The event says what is posted. -/
structure Carries (p : Inventory.Projection) (e : ResourceProjectionEvent) : Prop where
  tenantId : e.tenantId = p.tenantId
  inventoryResourceId : e.inventoryResourceId = p.inventoryResourceId
  azureResourceId : e.azureResourceId = p.azureResourceId
  name : e.name = p.name
  resourceType : e.resourceType = p.resourceType
  resourceGroup : e.resourceGroup = p.resourceGroup
  properties : e.properties.json = p.properties

theorem textField_str {body : List (String × Json)} {key text : String} (h : body.lookup key = some (.str text)) :
    textField body key = some text := by
  rw [textField, h]

theorem uuidField_str {body : List (String × Json)} {key : String} {id : Uuid}
    (h : body.lookup key = some (.str id.str)) : uuidField body key = some id := by
  rw [uuidField, textField_str h, Option.bind_some, Uuid.ofStr_str]

/-- A body is read back as it was posted, if the properties are a dictionary. -/
theorem modelValidate_payload {p : Inventory.Projection} {e : ResourceProjectionEvent} :
    modelValidate (payload p) = some e ↔ Carries p e := by
  have htenant : uuidField (payload p) "tenant_id" = some p.tenantId := uuidField_str rfl
  have hresource : uuidField (payload p) "inventory_resource_id" = some p.inventoryResourceId := uuidField_str rfl
  have hproperties : (payload p).lookup "properties" = some p.properties := rfl
  have hvalidate : modelValidate (payload p) = (dictField (payload p) "properties").map fun properties =>
      ⟨p.tenantId, p.inventoryResourceId, p.azureResourceId, p.name, p.resourceType, p.resourceGroup, properties⟩ := by
    have harm : textField (payload p) "azure_resource_id" = some p.azureResourceId := textField_str rfl
    have hname : textField (payload p) "name" = some p.name := textField_str rfl
    have htype : textField (payload p) "resource_type" = some p.resourceType := textField_str rfl
    have hgroup : textField (payload p) "resource_group" = some p.resourceGroup := textField_str rfl
    unfold modelValidate
    rw [htenant, hresource, harm, hname, htype, hgroup]
    cases dictField (payload p) "properties" <;> rfl
  rw [hvalidate, Option.map_eq_some_iff]
  refine ⟨?_, ?_⟩
  · rintro ⟨properties, hdict, rfl⟩
    refine ⟨rfl, rfl, rfl, rfl, rfl, rfl, ?_⟩
    unfold dictField at hdict
    rw [hproperties] at hdict
    split at hdict
    · rename_i members heq
      split_ifs at hdict
      cases hdict
      exact (Option.some.inj heq).symm
    · cases hdict
  · intro h
    obtain ⟨tenantId, resourceId, azureResourceId, name, resourceType, resourceGroup, properties⟩ := e
    obtain ⟨rfl, rfl, rfl, rfl, rfl, rfl, hjson⟩ := h
    refine ⟨properties, ?_, rfl⟩
    unfold dictField
    rw [hproperties, ← hjson]
    exact dif_pos properties.wellFormed

/-! ### The machine -/

/-- The worker's token is the service's. -/
def authorized (settings : Settings) : Bool :=
  settings.service.any fun token => token ≠ "" ∧ settings.worker.getD "" = token

section Machine
variable (settings : Settings) (inventoryHost : Inventory.Host)

/-- `project_resource` and `rebuild_relationships`: the event projected, if any, and the store. -/
def handle (host : Relationships.Host) (r : Request) (s : Relationships.Store) :
    Except Refusal (Option ResourceProjectionEvent × Relationships.Store) :=
  match r with
  | .resource p =>
    match modelValidate (payload p) with
    | none => .error .unprocessable
    | some event =>
      if authorized settings then
        match Relationships.projectAndExtract inventoryHost.py host event s with
        | .error f => .error (.failed f)
        | .ok (_, s) => .ok (some event, s)
      else .error .unauthorized
  | .rebuild tenantId =>
    if authorized settings then
      match Relationships.rebuildAll inventoryHost.py host tenantId s with
      | .error f => .error (.failed f)
      | .ok (_, s) => .ok (none, s)
    else .error .unauthorized

/-- What a worker is to post next. -/
def nextRequest : Inventory.Phase → Option Request
  | .projecting _ (p :: _) => some (.resource p)
  | .projecting job [] => some (.rebuild job.tenantId)
  | _ => none

/-- The worker's call was answered with 2xx. -/
def answered (s : State) (w : Nat) : Bool :=
  match (s.waiting w).bind (s.calls[·]?) with
  | some ⟨_, some (.ok _)⟩ => true
  | _ => false

/-- A post succeeds only with an answer. -/
def allowed (s : State) : Inventory.Action → Bool
  | .worker w (.post none) => answered s w
  | _ => true

/-- A worker whose post ends, well or not, or who crashes waits for nothing. -/
def forget (a : Inventory.Action) (waiting : Nat → Option Nat) : Nat → Option Nat :=
  match a with
  | .worker w (.post _) | .worker w .crash => Function.update waiting w none
  | _ => waiting

def note (a : Inventory.Action) (listed : Nat → List Json.Object) : Nat → List Json.Object :=
  match a with
  | .worker w (.query (.ok resources)) => Function.update listed w resources
  | _ => listed

def step (a : Action) (s : State) : Option State :=
  match a with
  | .inventory a =>
    if allowed s a then
      (Inventory.step inventoryHost a s.inventory).map fun inventory =>
        {s with inventory := inventory, waiting := forget a s.waiting, listed := note a s.listed}
    else none
  | .post w =>
    match s.inventory.workers[w]?.bind nextRequest, s.waiting w with
    | some r, none =>
      some {s with
        calls := s.calls ++ [⟨r, none⟩]
        waiting := Function.update s.waiting w (some s.calls.length)}
    | _, _ => none
  | .serve i host =>
    match s.calls[i]? with
    | some ⟨r, none⟩ =>
      match handle settings inventoryHost host r s.graph with
      | .error refusal => some {s with calls := s.calls.set i ⟨r, some (.error refusal)⟩}
      | .ok (event, graph) =>
        some {s with
          calls := s.calls.set i ⟨r, some (.ok ())⟩
          graph := graph
          accepted := s.accepted ++ event.toList}
    | _ => none

def initial : State := ⟨Inventory.initial, .empty, [], fun _ => none, [], fun _ => []⟩

end Machine

end Sentinel.Pipeline
