import Sentinel.Library.HashChain
import Sentinel.Library.JsonText
import Sentinel.Library.Sha256
import Sentinel.Common.Events

/-! The canonical object of an audit row, its record hash, and what the hash binds.

The object has thirteen members; its text determines each of them (`agrees_of_text_eq`),
so a record hash binds all of them as long as SHA-256 does not collide, and with them
the predecessor's hash. `tamper_evident` follows: two chains with one head are one chain. -/
namespace Sentinel.Audit
open Library Library.Json Common

/-- What the record hash covers, under the keys of the object. -/
structure Canonical where
  eventId : Uuid
  tenantId : Uuid
  occurredAt : String
  actorType : String
  actorId : String
  action : String
  entityType : String
  entityId : Option String
  outcome : String
  source : String
  correlationId : Uuid
  data : Json.Object
  previousHash : Option String

namespace Canonical

def members (c : Canonical) : List (String × Json) :=
  [("event_id", .str c.eventId.str),
   ("tenant_id", .str c.tenantId.str),
   ("occurred_at", .str c.occurredAt),
   ("actor_type", .str c.actorType),
   ("actor_id", .str c.actorId),
   ("action", .str c.action),
   ("entity_type", .str c.entityType),
   ("entity_id", textOrNull c.entityId),
   ("outcome", .str c.outcome),
   ("source", .str c.source),
   ("correlation_id", .str c.correlationId.str),
   ("data", c.data.json),
   ("previous_hash", textOrNull c.previousHash)]

/-- The text that is hashed. -/
def text (c : Canonical) : List Char := dumps (.obj c.members)

def recordHash (c : Canonical) : String := Sha256.hexdigest c.text

/-- Equal in every hashed field, the data up to the order of object members. -/
structure Agrees (c d : Canonical) : Prop where
  eventId : c.eventId = d.eventId
  tenantId : c.tenantId = d.tenantId
  occurredAt : c.occurredAt = d.occurredAt
  actorType : c.actorType = d.actorType
  actorId : c.actorId = d.actorId
  action : c.action = d.action
  entityType : c.entityType = d.entityType
  entityId : c.entityId = d.entityId
  outcome : c.outcome = d.outcome
  source : c.source = d.source
  correlationId : c.correlationId = d.correlationId
  data : Same c.data.json d.data.json
  previousHash : c.previousHash = d.previousHash

theorem wellFormed_textOrNull (s : Option String) :
    WellFormed (textOrNull s) := by
  cases s <;> simp [textOrNull, WellFormed]

theorem nodup_keys (c : Canonical) : (c.members.map Prod.fst).Nodup := by
  simp [members]

theorem wellFormed_members (c : Canonical) : WellFormed (.obj c.members) := by
  rw [wellFormed_obj]
  have hdata : WellFormed c.data.json := c.data.wellFormed
  refine ⟨c.nodup_keys, ?_⟩
  simp only [members, List.forall_mem_cons, wellFormed_textOrNull, hdata]
  simp [WellFormed]

/-- **The text determines the fields.** -/
theorem agrees_of_text_eq {c d : Canonical} (h : c.text = d.text) : c.Agrees d := by
  have hsame : Same (.obj c.members) (.obj d.members) := same_of_dumps_eq h
  have field : ∀ (key : String) {v w : Json}, (key, v) ∈ c.members → (key, w) ∈ d.members →
      Same v w := fun key _ _ hv hw => hsame.member d.nodup_keys hv hw
  have uuid : ∀ (key : String) {u v : Uuid}, (key, .str u.str) ∈ c.members →
      (key, .str v.str) ∈ d.members → u = v := fun key _ _ hu hv =>
    Uuid.str_inj (field key hu hv).str_inj
  exact
    { eventId := uuid "event_id" (by simp [members]) (by simp [members])
      tenantId := uuid "tenant_id" (by simp [members]) (by simp [members])
      occurredAt := (field "occurred_at" (by simp [members]) (by simp [members])).str_inj
      actorType := (field "actor_type" (by simp [members]) (by simp [members])).str_inj
      actorId := (field "actor_id" (by simp [members]) (by simp [members])).str_inj
      action := (field "action" (by simp [members]) (by simp [members])).str_inj
      entityType := (field "entity_type" (by simp [members]) (by simp [members])).str_inj
      entityId := (field "entity_id" (by simp [members]) (by simp [members])).textOrNull_inj
      outcome := (field "outcome" (by simp [members]) (by simp [members])).str_inj
      source := (field "source" (by simp [members]) (by simp [members])).str_inj
      correlationId := uuid "correlation_id" (by simp [members]) (by simp [members])
      data := field "data" (by simp [members]) (by simp [members])
      previousHash := (field "previous_hash" (by simp [members]) (by simp [members])).textOrNull_inj }

/-- Fields that agree are written alike. -/
theorem text_eq_of_agrees {c d : Canonical} (h : c.Agrees d) : c.text = d.text := by
  refine dumps_eq_of_same ?_ c.wellFormed_members d.wellFormed_members
  have hd : d = {c with data := d.data} := by
    obtain ⟨_, _, _, _, _, _, _, _, _, _, _, _, _⟩ := d
    simp only [mk.injEq, true_and]
    exact ⟨h.eventId.symm, h.tenantId.symm, h.occurredAt.symm, h.actorType.symm, h.actorId.symm,
      h.action.symm, h.entityType.symm, h.entityId.symm, h.outcome.symm, h.source.symm,
      h.correlationId.symm, h.previousHash.symm⟩
  rw [hd]
  refine .obj (.refl _) (.refl _) rfl ?_
  simp only [members, List.map_cons, List.map_nil, List.forall₂_cons, Same.refl, true_and, and_true,
    List.Forall₂.nil]
  exact h.data

theorem text_eq_iff (c d : Canonical) : c.text = d.text ↔ c.Agrees d :=
  ⟨agrees_of_text_eq, text_eq_of_agrees⟩

/-- Where SHA-256 does not collide, equal record hashes bind the fields. -/
theorem agrees_of_recordHash_eq {texts : Set (List Char)} (hfree : Sha256.CollisionFree texts)
    {c d : Canonical} (hc : c.text ∈ texts) (hd : d.text ∈ texts)
    (h : c.recordHash = d.recordHash) : c.Agrees d :=
  agrees_of_text_eq (hfree hc hd h)

end Canonical

/-! ### Chains -/

/-- An audit row as its hash sees it. -/
structure ChainRow extends Canonical where
  recordHash : String

/-- Every record hash is the hash of its row, and every row names the one before it. -/
structure ValidChain (rows : List ChainRow) : Prop where
  hashed : ∀ r ∈ rows, r.recordHash = r.toCanonical.recordHash
  linked : HashChain.Linked (fun r : ChainRow => r.previousHash) ChainRow.recordHash none rows

/-- The texts behind the record hashes of the rows. -/
def hashedTexts (rows : List ChainRow) : Set (List Char) := {t | ∃ r ∈ rows, t = r.toCanonical.text}

/-- **The head hash determines the chain.** Two valid lists of rows whose last record
hashes are equal have the same length and agree row by row on every hashed field. -/
theorem tamper_evident {rows rows' : List ChainRow} (h : ValidChain rows) (h' : ValidChain rows')
    (hfree : Sha256.CollisionFree (hashedTexts (rows ++ rows')))
    (hhead : rows.getLast?.map ChainRow.recordHash = rows'.getLast?.map ChainRow.recordHash) :
    rows.length = rows'.length ∧
      List.Forall₂ (fun r r' => r.toCanonical.Agrees r'.toCanonical) rows rows' := by
  have hrows : List.Forall₂ (fun r r' : ChainRow => r.toCanonical.Agrees r'.toCanonical) rows rows' := by
    refine HashChain.forall₂_of_tip_eq h.linked h'.linked ?_ ?_
    · intro r hr r' hr' heq
      rw [h.hashed r hr, h'.hashed r' hr'] at heq
      have hagrees := Canonical.agrees_of_recordHash_eq hfree
        ⟨r, List.mem_append_left _ hr, rfl⟩ ⟨r', List.mem_append_right _ hr', rfl⟩ heq
      exact ⟨hagrees.previousHash, hagrees⟩
    · rw [HashChain.tip_eq_getLast?, HashChain.tip_eq_getLast?]
      exact hhead
  exact ⟨hrows.length_eq, hrows⟩

/-- A sync request as a chained row, its data under two keys in either order. -/
def sampleRow (eventId : Uuid) (swapped : Bool) (previousHash : Option String) : Canonical where
  eventId := eventId
  tenantId := 3
  occurredAt := "2026-06-07T10:00:00+00:00"
  actorType := "service"
  actorId := "inventory-worker"
  action := "inventory.sync.request"
  entityType := "sync_job"
  entityId := none
  outcome := "accepted"
  source := "inventory-service"
  correlationId := 4
  data := if swapped then ⟨[("count", .int 2), ("mode", .str "full")], by simp [WellFormed]⟩
    else ⟨[("mode", .str "full"), ("count", .int 2)], by simp [WellFormed]⟩
  previousHash := previousHash

def Canonical.row (c : Canonical) : ChainRow := {c with recordHash := c.recordHash}

def sampleChain (swapped : Bool) : List ChainRow :=
  [(sampleRow 1 false none).row,
    (sampleRow 2 swapped (some (sampleRow 1 false none).recordHash)).row]

theorem sampleChain_valid (swapped : Bool) : ValidChain (sampleChain swapped) where
  hashed := by simp [sampleChain, Canonical.row]
  linked := ⟨rfl, rfl, trivial⟩

theorem sampleChain_text : (sampleRow 2 true (some (sampleRow 1 false none).recordHash)).text =
    (sampleRow 2 false (some (sampleRow 1 false none).recordHash)).text := by decide +kernel

/-- The two chains are one chain: their second rows differ in member order only. -/
theorem tamper_evident_sampleChain :
    (sampleChain false).length = (sampleChain true).length ∧
      List.Forall₂ (fun r r' => r.toCanonical.Agrees r'.toCanonical)
        (sampleChain false) (sampleChain true) := by
  refine tamper_evident (sampleChain_valid false) (sampleChain_valid true) ?_ ?_
  · refine (Sha256.collisionFree_pair (s := (sampleRow 1 false none).text)
      (t := (sampleRow 2 false (some (sampleRow 1 false none).recordHash)).text)
      (by decide +kernel)).mono ?_
    rintro t ⟨r, hr, rfl⟩
    simp only [sampleChain, List.cons_append, List.nil_append, List.mem_cons, List.not_mem_nil,
      or_false] at hr
    rcases hr with rfl | rfl | rfl | rfl
    · exact .inl rfl
    · exact .inr rfl
    · exact .inl rfl
    · exact .inr sampleChain_text
  · exact congrArg some (congrArg Sha256.hexdigest sampleChain_text.symm)

end Sentinel.Audit
