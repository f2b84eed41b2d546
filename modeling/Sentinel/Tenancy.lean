import Sentinel.Audit.Tenants
import Sentinel.Inventory.Tenants
import Sentinel.Relationships.Tenants

/-! Tenants side by side, over the inventory, the relationships and the audit trail.

The tables are shared, and so are their primary keys. A call is for one tenant. Its clock,
the ids it may draw and the order in which its queries return rows that they do not order
come with it. What other tenants have in the tables, and what is called for them in between,
does not show (`tenants_isolated`). -/
namespace Sentinel.Tenancy
open Library Library.Table

structure Database where
  inventory : Inventory.Store
  relationships : Relationships.Store
  audit : Audit.Tables

/-- The empty tables. -/
def Database.empty : Database where
  inventory := .empty
  relationships := .empty
  audit := {}

/-- The rows of a tenant. -/
def Database.of (d : Database) (tenantId : Uuid) : Database where
  inventory := d.inventory.of tenantId
  relationships := d.relationships.of tenantId
  audit := d.audit.of tenantId

inductive Operation where
  | inventory (op : Inventory.Operation)
  | relationships (op : Relationships.Operation)
  | audit (op : Audit.Operation)

/-- The tenant the call is for. -/
def Operation.tenantId : Operation → Uuid
  | .inventory op => op.tenantId
  | .relationships op => op.tenantId
  | .audit op => op.tenantId

/-- The ids the call may draw are in no other tenant's rows. -/
def Operation.Fresh : Operation → Database → Prop
  | .inventory op, d => op.Fresh d.inventory
  | .relationships op, d => op.Fresh d.relationships
  | .audit op, d => op.Fresh d.audit

inductive Reply where
  | inventory (a : Inventory.Reply)
  | relationships (a : Relationships.Reply)
  | audit (a : Audit.Reply)

/-- What the services take from the machines they run on. -/
structure Host where
  inventory : Inventory.Host
  audit : Audit.Host

section Run
variable (host : Host)

/-- One call. -/
def call (op : Operation) (d : Database) : Reply × Database :=
  match op with
  | .inventory op =>
    let (a, s) := Inventory.runOperation host.inventory op d.inventory
    (.inventory a, {d with inventory := s})
  | .relationships op =>
    let (a, s) := Relationships.runOperation host.inventory.py op d.relationships
    (.relationships a, {d with relationships := s})
  | .audit op =>
    let (a, s) := Audit.runOperation host.audit op d.audit
    (.audit a, {d with audit := s})

/-- What the statements of one tenant do to the tables. -/
structure Database.WrittenBy (tenantId : Uuid) (d e : Database) : Prop where
  inventory : Inventory.Store.WrittenBy tenantId d.inventory e.inventory
  relationships : Relationships.Store.WrittenBy tenantId d.relationships e.relationships
  audit : Audit.Tables.WrittenBy tenantId d.audit e.audit

variable {op : Operation} {tenantId : Uuid} {d e : Database}

theorem Database.WrittenBy.others (h : Database.WrittenBy tenantId d e) {other : Uuid} (hne : other ≠ tenantId) :
    e.of other = d.of other := by
  unfold Database.of
  rw [h.inventory.others hne, h.relationships.others hne, h.audit.others hne]

theorem call_of (hfresh : op.Fresh d) :
    call host op (d.of op.tenantId) = ((call host op d).1, (call host op d).2.of op.tenantId) := by
  cases op with
  | inventory op =>
    have h := Inventory.runOperation_of host.inventory hfresh
    exact congrArg (fun p : _ × Inventory.Store => (Reply.inventory p.1, {d.of op.tenantId with inventory := p.2})) h
  | relationships op =>
    have h := Relationships.runOperation_of host.inventory.py hfresh
    exact congrArg
      (fun p : _ × Relationships.Store => (Reply.relationships p.1, {d.of op.tenantId with relationships := p.2})) h
  | audit op =>
    have h := Audit.runOperation_of host.audit hfresh
    exact congrArg (fun p : _ × Audit.Tables => (Reply.audit p.1, {d.of op.tenantId with audit := p.2})) h

theorem call_written (op : Operation) (d : Database) : Database.WrittenBy op.tenantId d (call host op d).2 := by
  cases op with
  | inventory op => exact ⟨Inventory.runOperation_written host.inventory op d.inventory, .refl _, .refl _⟩
  | relationships op =>
    exact ⟨.refl _, Relationships.runOperation_written host.inventory.py op d.relationships, .refl _⟩
  | audit op => exact ⟨.refl _, .refl _, Audit.runOperation_written host.audit op d.audit⟩

theorem Operation.Fresh.before (h : op.Fresh e) (hwritten : Database.WrittenBy tenantId d e) : op.Fresh d := by
  cases op with
  | inventory op => exact Inventory.Operation.Fresh.before h hwritten.inventory
  | relationships op => exact Relationships.Operation.Fresh.before h hwritten.relationships
  | audit op => exact Audit.Operation.Fresh.before h hwritten.audit

theorem Operation.Fresh.after (h : op.Fresh d) (hwritten : Database.WrittenBy op.tenantId d e) : op.Fresh e := by
  cases op with
  | inventory op => exact Inventory.Operation.Fresh.after h hwritten.inventory
  | relationships op => exact Relationships.Operation.Fresh.after h hwritten.relationships
  | audit op => exact Audit.Operation.Fresh.after h hwritten.audit

/-- The tenants are kept apart. -/
theorem separated : Unwinding.Separated (call host) Operation.tenantId (fun tenantId d => d.of tenantId)
    Operation.Fresh :=
  .of_parts (fun _ _ hfresh => call_of host hfresh) (call_written host) (fun h hne => h.others hne)
    (fun hwritten h => h.before hwritten) fun hwritten h => h.after hwritten

end Run

/-- **A tenant's rows and answers are its own.** In two databases that agree on the tenant's
rows, a call for the tenant gives one answer and leaves them in agreement, provided the ids
it draws are new. A call for another tenant leaves the tenant's rows alone. So the calls for
the others can be taken out of any sequence of calls: the tenant gets the same answers and
has the same rows after. -/
theorem tenants_isolated (host : Host) (tenantId : Uuid) :
    (∀ (op : Operation) (d e : Database), op.tenantId = tenantId → d.of tenantId = e.of tenantId →
      op.Fresh d → op.Fresh e →
        (call host op d).1 = (call host op e).1 ∧ (call host op d).2.of tenantId = (call host op e).2.of tenantId) ∧
    (∀ (op : Operation) (d : Database), op.tenantId ≠ tenantId → (call host op d).2.of tenantId = d.of tenantId) ∧
    ∀ (ops : List Operation) (d : Database),
      Unwinding.Supplied (call host) Operation.tenantId Operation.Fresh tenantId ops d →
        Unwinding.answersTo Operation.tenantId tenantId (Unwinding.run (call host) ops d).1 =
          (Unwinding.run (call host) (Unwinding.purge Operation.tenantId tenantId ops) d).1 ∧
        (Unwinding.run (call host) ops d).2.of tenantId =
          (Unwinding.run (call host) (Unwinding.purge Operation.tenantId tenantId ops) d).2.of tenantId := by
  have h := separated host
  refine ⟨?_, fun op d hne => h.respects op d tenantId hne, fun ops d hsupplied => h.purge hsupplied (.refl d)⟩
  intro op d e howner hview hd he
  subst howner
  exact h.consistent op d e hview hd he

/-! ### Two tenants and one idempotency key -/

def sampleHost : Host := ⟨Inventory.sampleHost, Audit.sampleHost⟩

/-- A request for a job; both tenants use one key. -/
def sampleCall (tenantId id : Uuid) : Operation :=
  .inventory (.createSyncJob id 0 ⟨tenantId, 3, 5, "full", [], 4, "nightly"⟩)

/-- The second tenant has a job. -/
def sampleOthers : Database := (call sampleHost (sampleCall 2 20) .empty).2

theorem tenants_isolated_sampleCall :
    ((call sampleHost (sampleCall 1 10) .empty).1 = (call sampleHost (sampleCall 1 10) sampleOthers).1 ∧
      (call sampleHost (sampleCall 1 10) .empty).2.of 1 =
        (call sampleHost (sampleCall 1 10) sampleOthers).2.of 1) ∧
    (call sampleHost (sampleCall 2 21) sampleOthers).2.of 1 = sampleOthers.of 1 ∧
    (Unwinding.run (call sampleHost) [sampleCall 1 10, sampleCall 2 20, sampleCall 1 11] .empty).2.of 1 =
      (Unwinding.run (call sampleHost) [sampleCall 1 10, sampleCall 1 11] .empty).2.of 1 := by
  have h := tenants_isolated sampleHost 1
  have hagree : Database.empty.of 1 = sampleOthers.of 1 := (h.2.1 (sampleCall 2 20) .empty (by decide)).symm
  have hnew : (sampleCall 1 10).Fresh sampleOthers := by
    show NewTo _ _ _ sampleOthers.inventory.jobs _
    decide +kernel
  refine ⟨h.1 (sampleCall 1 10) .empty sampleOthers rfl hagree (fun _ hr => nomatch hr) hnew,
    h.2.1 (sampleCall 2 21) sampleOthers (by decide), ?_⟩
  have hsupplied : Unwinding.Supplied (call sampleHost) Operation.tenantId Operation.Fresh 1
      [sampleCall 1 10, sampleCall 2 20, sampleCall 1 11] .empty := by
    refine ⟨(fun _ _ hr => nomatch hr), fun hother => absurd hother (by decide), fun _ => ?_, trivial⟩
    show NewTo _ _ _ (Unwinding.run (call sampleHost) [sampleCall 1 10, sampleCall 2 20] .empty).2.inventory.jobs _
    decide +kernel
  exact (h.2.2 _ .empty hsupplied).2

end Sentinel.Tenancy
