import Sentinel.Library.Unwinding
import Sentinel.Relationships.Graph
import Sentinel.Relationships.Service

/-! The relationships as one tenant sees them.

`Store.of` keeps the rows of a tenant. A function called for the tenant is confined to
them (`Confined`): it does to these what it does to the whole store, if the ids it draws
are in no other tenant's rows, and it writes to the rows of no other tenant. A root, a
resource or an inventory id may be anyone's. -/
namespace Sentinel.Relationships
open Library Library.Table Common

attribute [ext] Store

/-- The rows of a tenant. -/
def Store.of (s : Store) (tenantId : Uuid) : Store where
  nodes := ofOwner ResourceNode.tenantId tenantId s.nodes
  edges := ofOwner Relationship.tenantId tenantId s.edges
  nodeIds := s.nodeIds.ofOwner
  inventoryIds := s.inventoryIds.ofOwner
  armIds := s.armIds.ofOwner
  edgeIds := s.edgeIds.ofOwner
  edgeKeys := s.edgeKeys.ofOwner
  noSelfLoop := fun e he => s.noSelfLoop e (List.mem_of_mem_filter he)
  confidenceRange := fun e he => s.confidenceRange e (List.mem_of_mem_filter he)
  strength := fun e he => s.strength e (List.mem_of_mem_filter he)

/-- What the statements of one tenant do to the tables. -/
structure Store.WrittenBy (tenantId : Uuid) (s t : Store) : Prop where
  nodes : Table.WrittenBy ResourceNode.tenantId ResourceNode.id tenantId s.nodes t.nodes
  edges : Table.WrittenBy Relationship.tenantId Relationship.id tenantId s.edges t.edges

section Functions
variable {py : Python} {host : Host} {tenantId : Uuid} {s s' t : Store}

theorem Store.WrittenBy.refl (s : Store) : Store.WrittenBy tenantId s s := ⟨.refl _, .refl _⟩

theorem Store.WrittenBy.trans (h : Store.WrittenBy tenantId s s') (h' : Store.WrittenBy tenantId s' t) :
    Store.WrittenBy tenantId s t :=
  ⟨h.nodes.trans h'.nodes, h.edges.trans h'.edges⟩

/-- The other tenants keep their rows. -/
theorem Store.WrittenBy.others (h : Store.WrittenBy tenantId s s') {other : Uuid} (hne : other ≠ tenantId) :
    s'.of other = s.of other :=
  Store.ext (h.nodes.others other hne) (h.edges.others other hne)

/-- A function that needs the rows of the tenant alone, and writes to no others. -/
abbrev Confined {α : Type} (tenantId : Uuid) (new : Store → Prop) (f : Store → Except Failure (α × Store))
    (s : Store) : Prop :=
  Unwinding.Confined (fun s => s.of tenantId) (Store.WrittenBy tenantId) new f s

/-- The ids for edges are in no other tenant's rows. -/
def NewEdges (host : Host) (tenantId : Uuid) (s : Store) : Prop :=
  ∀ n, NewTo Relationship.tenantId Relationship.id tenantId s.edges (host.edgeIds n)

theorem NewEdges.after (h : Store.WrittenBy tenantId s s') (hnew : NewEdges host tenantId s) :
    NewEdges host tenantId s' :=
  fun n => (hnew n).after h.edges

/-- The ids for a node and for edges are in no other tenant's rows. -/
structure NewRows (host : Host) (tenantId : Uuid) (s : Store) : Prop where
  node : NewTo ResourceNode.tenantId ResourceNode.id tenantId s.nodes host.nodeId
  edges : NewEdges host tenantId s

theorem NewRows.after (h : Store.WrittenBy tenantId s s') (hnew : NewRows host tenantId s) :
    NewRows host tenantId s' :=
  ⟨hnew.node.after h.nodes, hnew.edges.after h⟩

/-! ### Statements -/

theorem insertNode_of {n : ResourceNode} (hn : n.tenantId = tenantId)
    (hnew : NewTo ResourceNode.tenantId ResourceNode.id tenantId s.nodes n.id) :
    (s.of tenantId).insertNode n = (s.insertNode n).map fun s => s.of tenantId := by
  have hid : n.id ∈ (s.of tenantId).nodes.map ResourceNode.id ↔ n.id ∈ s.nodes.map ResourceNode.id := hnew.mem_ids
  have hinventory : n.inventoryKey ∈ (s.of tenantId).nodes.map ResourceNode.inventoryKey ↔
      n.inventoryKey ∈ s.nodes.map ResourceNode.inventoryKey :=
    mem_keys_ofOwner fun q _ heq => (Prod.mk.inj heq).1.trans hn
  have harm : n.armKey ∈ (s.of tenantId).nodes.map ResourceNode.armKey ↔
      n.armKey ∈ s.nodes.map ResourceNode.armKey :=
    mem_keys_ofOwner fun q _ heq => (Prod.mk.inj heq).1.trans hn
  unfold Store.insertNode
  simp only [hid, hinventory, harm]
  split_ifs
  · rfl
  · rfl
  · rfl
  · exact congrArg Except.ok (Store.ext (ofOwner_snoc_own hn).symm rfl)

theorem insertNode_written {n : ResourceNode} (hn : n.tenantId = tenantId) (h : s.insertNode n = .ok s') :
    Store.WrittenBy tenantId s s' := by
  obtain ⟨hnodes, hedges⟩ := Store.insertNode_eq_ok h
  refine ⟨?_, .of_eq hedges⟩
  rw [hnodes]
  exact writtenBy_snoc hn

theorem insertEdge_of {e : Relationship} (he : e.tenantId = tenantId)
    (hnew : NewTo Relationship.tenantId Relationship.id tenantId s.edges e.id) :
    (s.of tenantId).insertEdge e = (s.insertEdge e).map fun s => s.of tenantId := by
  have hid : e.id ∈ (s.of tenantId).edges.map Relationship.id ↔ e.id ∈ s.edges.map Relationship.id := hnew.mem_ids
  have hkey : e.edgeKey ∈ (s.of tenantId).edges.map Relationship.edgeKey ↔
      e.edgeKey ∈ s.edges.map Relationship.edgeKey :=
    mem_keys_ofOwner fun q _ heq => (Prod.mk.inj heq).1.trans he
  unfold Store.insertEdge
  simp only [hid, hkey]
  split_ifs
  · rfl
  · rfl
  · rfl
  · exact congrArg Except.ok (Store.ext rfl (ofOwner_snoc_own he).symm)
  · rfl
  · rfl

theorem insertEdge_written {e : Relationship} (he : e.tenantId = tenantId) (h : s.insertEdge e = .ok s') :
    Store.WrittenBy tenantId s s' := by
  obtain ⟨hnodes, hedges⟩ := Store.insertEdge_eq_ok h
  refine ⟨.of_eq hnodes, ?_⟩
  rw [hedges]
  exact writtenBy_snoc he

theorem updateNodes_of {f : ResourceNode → ResourceNode} (hf : Store.KeepsNode f) :
    (s.updateNodes f hf).of tenantId = (s.of tenantId).updateNodes f hf :=
  Store.ext (ofOwner_rewrite fun n => congrArg Prod.fst (hf.armKey n)) rfl

theorem updateNodes_written {f : ResourceNode → ResourceNode} (hf : Store.KeepsNode f)
    (hfix : ∀ n ∈ s.nodes, n.tenantId ≠ tenantId → f n = n) : Store.WrittenBy tenantId s (s.updateNodes f hf) :=
  ⟨writtenBy_map (fun n => congrArg Prod.fst (hf.armKey n)) hf.id hfix, .refl _⟩

theorem updateEdges_of {f : Relationship → Relationship} (hf : Store.KeepsEdge f) :
    (s.updateEdges f hf).of tenantId = (s.of tenantId).updateEdges f hf :=
  Store.ext rfl (ofOwner_rewrite fun e => congrArg Prod.fst (hf.edgeKey e))

theorem updateEdges_written {f : Relationship → Relationship} (hf : Store.KeepsEdge f)
    (hfix : ∀ e ∈ s.edges, e.tenantId ≠ tenantId → f e = e) : Store.WrittenBy tenantId s (s.updateEdges f hf) :=
  ⟨.refl _, writtenBy_map (fun e => congrArg Prod.fst (hf.edgeKey e)) hf.id hfix⟩

/-! ### Projecting -/

theorem confined_upsertNode {event : ResourceProjectionEvent} :
    Confined event.tenantId (NewRows host event.tenantId) (upsertNode py host event) s := by
  have hfind : (s.of event.tenantId).nodes.find?
        (fun n => n.inventoryKey = (event.tenantId, event.inventoryResourceId)) =
      s.nodes.find? fun n => n.inventoryKey = (event.tenantId, event.inventoryResourceId) :=
    find?_ofOwner fun _ hn => (Prod.mk.inj (of_decide_eq_true hn)).1
  refine ⟨?_, ?_⟩
  · intro hnew
    unfold upsertNode
    rw [hfind]
    cases s.nodes.find? fun n => n.inventoryKey = (event.tenantId, event.inventoryResourceId) with
    | none =>
      have hinsert : (s.of event.tenantId).insertNode (newNode py host.nodeId event).stored = _ :=
        insertNode_of rfl hnew.node
      dsimp only
      split_ifs
      · rw [hinsert]
        cases s.insertNode (newNode py host.nodeId event).stored <;> rfl
      · rfl
    | some node =>
      dsimp only
      split_ifs
      · exact congrArg (fun t => Except.ok (_, t)) (updateNodes_of _).symm
      · rfl
  · intro node s' h
    unfold upsertNode at h
    split at h
    · split_ifs at h
      obtain ⟨t, ht, heq⟩ := Fallible.map_eq_ok.mp h
      cases heq
      exact insertNode_written rfl ht
    · split_ifs at h
      cases h
      refine updateNodes_written _ fun n _ hother => if_neg fun hkey => hother ?_
      exact (Prod.mk.inj hkey).1

/-! ### Edges -/

theorem targetNode_of (c : EdgeCandidate) : targetNode tenantId (s.of tenantId) c = targetNode tenantId s c :=
  find?_ofOwner fun _ hn => (Prod.mk.inj (of_decide_eq_true hn)).1

/-- The edges the loop over the candidates looks among are the tenant's. -/
def Owned (tenantId : Uuid) (current : List Relationship) (s : Store) : Prop :=
  ∀ e ∈ current, ∃ q ∈ s.edges, q.tenantId = tenantId ∧ q.id = e.id

theorem Owned.after {current : List Relationship} (h : Owned tenantId current s)
    (hwritten : Store.WrittenBy tenantId s s') : Owned tenantId current s' := by
  intro e he
  obtain ⟨q, hq, howner, hid⟩ := h e he
  obtain ⟨q', hq', howner', hid'⟩ := hwritten.edges.grows q hq
  exact ⟨q', hq', howner'.trans howner, hid'.trans hid⟩

section Rebuild
variable {source : ResourceNode} {extractor : Extractor} {current : List Relationship} {changed : Nat}

theorem rebuildEdge_of (c : EdgeCandidate) (hnew : NewEdges host tenantId s) :
    rebuildEdge host tenantId source extractor current c changed (s.of tenantId) =
      (rebuildEdge host tenantId source extractor current c changed s).map fun p => (p.1, p.2.of tenantId) := by
  unfold rebuildEdge
  rw [targetNode_of]
  cases targetNode tenantId s c with
  | none => rfl
  | some target =>
    dsimp only
    split_ifs
    · rfl
    · cases current.find? fun e => e.targetResourceId = target.inventoryResourceId ∧
          e.relationshipType = c.relationshipType with
      | none =>
        have hinsert : (s.of tenantId).insertEdge (newEdge (host.edgeIds changed) tenantId
            source.inventoryResourceId target.inventoryResourceId host.now extractor c) = _ :=
          insertEdge_of rfl (hnew changed)
        dsimp only
        rw [hinsert]
        cases s.insertEdge (newEdge (host.edgeIds changed) tenantId source.inventoryResourceId
          target.inventoryResourceId host.now extractor c) <;> rfl
      | some edge => exact congrArg (fun t => Except.ok (_, t)) (updateEdges_of _).symm

theorem rebuildEdge_written {c : EdgeCandidate} {drawn : Nat} (howned : Owned tenantId current s)
    (h : rebuildEdge host tenantId source extractor current c changed s = .ok (drawn, s')) :
    Store.WrittenBy tenantId s s' := by
  unfold rebuildEdge at h
  split at h
  · cases h
    exact .refl s
  · split_ifs at h
    · cases h
      exact .refl s
    · split at h
      · obtain ⟨t, ht, heq⟩ := Fallible.map_eq_ok.mp h
        cases heq
        exact insertEdge_written rfl ht
      · rename_i edge hfind
        cases h
        obtain ⟨q, hq, howner, hid⟩ := howned edge (List.mem_of_find?_eq_some hfind)
        refine updateEdges_written _ fun e he hother => if_neg ?_
        rw [← hid]
        exact s.edgeIds.ne he hq (howner ▸ hother)

theorem confined_rebuildLoop {candidates : List EdgeCandidate} (howned : Owned tenantId current s) :
    Confined tenantId (NewEdges host tenantId)
      (rebuildLoop host tenantId source extractor current candidates changed) s := by
  induction candidates generalizing changed s with
  | nil => exact .pure (.refl s) changed
  | cons c rest ih =>
    have hedge : Confined tenantId (NewEdges host tenantId)
        (rebuildEdge host tenantId source extractor current c changed) s :=
      ⟨rebuildEdge_of c, fun _ _ h => rebuildEdge_written howned h⟩
    exact hedge.bind .trans .after fun _ _ hwritten => ih (howned.after hwritten)

theorem confined_rebuildEdges {candidates : List EdgeCandidate} :
    Confined tenantId (NewEdges host tenantId)
      (rebuildEdges host tenantId source extractor candidates changed) s := by
  have hcurrent : (s.of tenantId).edges.filter (ofExtractor tenantId source.inventoryResourceId extractor) =
      s.edges.filter (ofExtractor tenantId source.inventoryResourceId extractor) :=
    filter_ofOwner fun _ he => (of_decide_eq_true he).1
  have hdeactivated : Store.WrittenBy tenantId s
      (s.updateEdges (deactivate tenantId source.inventoryResourceId extractor)
        (keepsEdge_deactivate tenantId source.inventoryResourceId extractor)) := by
    refine updateEdges_written _ fun e _ hother => if_neg fun he => hother ?_
    exact (of_decide_eq_true he).1
  have howned : Owned tenantId (host.edgeOrder.arrange 0
      (s.edges.filter (ofExtractor tenantId source.inventoryResourceId extractor))) s := by
    intro e he
    obtain ⟨hmem, hof⟩ := List.mem_filter.mp ((host.edgeOrder.perm 0 _).mem_iff.mp he)
    exact ⟨e, hmem, (of_decide_eq_true hof).1, rfl⟩
  have hloop : Confined tenantId (NewEdges host tenantId)
      (rebuildLoop host tenantId source extractor _ candidates changed) _ :=
    confined_rebuildLoop (howned.after hdeactivated)
  refine ⟨?_, ?_⟩
  · intro hnew
    unfold rebuildEdges
    rw [hcurrent, ← updateEdges_of]
    exact hloop.of (hnew.after hdeactivated)
  · intro n s' h
    exact hdeactivated.trans (hloop.written n s' h)

theorem confined_rebuildNode {node : ResourceNode} {extractors : List Extractor} :
    Confined tenantId (NewEdges host tenantId) (rebuildNode host tenantId node extractors changed) s := by
  induction extractors generalizing changed s with
  | nil => exact .pure (.refl s) changed
  | cons extractor rest ih =>
    by_cases hsupports : extractor.supports node.resourceType
    · have hnode : rebuildNode host tenantId node (extractor :: rest) changed = fun s =>
          (rebuildEdges host tenantId node extractor (extractor.extract node.properties) changed s).bind fun p =>
            rebuildNode host tenantId node rest p.1 p.2 := by
        funext t
        rw [rebuildNode, if_pos hsupports]
      rw [hnode]
      exact confined_rebuildEdges.bind .trans .after fun _ _ _ => ih
    · have hnode : rebuildNode host tenantId node (extractor :: rest) changed =
          rebuildNode host tenantId node rest changed := by
        funext t
        rw [rebuildNode, if_neg hsupports]
      rw [hnode]
      exact ih

theorem confined_projectAndExtract {event : ResourceProjectionEvent} :
    Confined event.tenantId (NewRows host event.tenantId) (projectAndExtract py host event) s :=
  confined_upsertNode.bind (g := fun node => rebuildNode host event.tenantId node (defaultExtractors py) 0)
    .trans .after fun _ _ _ => confined_rebuildNode.mono NewRows.edges

theorem confined_rebuildNodes {nodes : List ResourceNode} :
    Confined tenantId (NewEdges host tenantId) (rebuildNodes py host tenantId nodes changed) s := by
  induction nodes generalizing changed s with
  | nil => exact .pure (.refl s) changed
  | cons node rest ih => exact confined_rebuildNode.bind .trans .after fun _ _ _ => ih

theorem confined_rebuildAll : Confined tenantId (NewEdges host tenantId) (rebuildAll py host tenantId) s := by
  have hlist : listNodes tenantId (s.of tenantId) = listNodes tenantId s :=
    filter_ofOwner fun _ hn => (of_decide_eq_true hn).1
  have hnodes : Confined tenantId (NewEdges host tenantId)
      (rebuildNodes py host tenantId (host.nodeOrder.arrange 0 (listNodes tenantId s)) 0) s := confined_rebuildNodes
  refine ⟨?_, ?_⟩
  · intro hnew
    unfold rebuildAll
    rw [hlist]
    exact hnodes.of hnew
  · exact hnodes.written

end Rebuild

/-! ### Queries -/

theorem listEdges_of (q : EdgeFilter) : listEdges tenantId q (s.of tenantId) = listEdges tenantId q s := by
  unfold listEdges
  refine congrArg (fun rows => (Query.orderBy _ rows).take 2000) ?_
  exact filter_ofOwner fun _ he => (of_decide_eq_true he).1

theorem expand_of {order : Query.RowOrder Relationship} {query : GraphQuery} :
    expand order tenantId query (s.of tenantId) = expand order tenantId query s := by
  funext depth search
  have hedges : edgesForFrontier tenantId search.frontier query.direction (s.of tenantId) =
      edgesForFrontier tenantId search.frontier query.direction s :=
    filter_ofOwner fun _ he => (of_decide_eq_true he).1
  unfold expand
  rw [hedges]

theorem layers_of {order : Query.RowOrder Relationship} {query : GraphQuery} {remaining depth : Nat}
    {search : Search} :
    layers order tenantId query (s.of tenantId) remaining depth search =
      layers order tenantId query s remaining depth search := by
  induction remaining generalizing depth search with
  | zero => rfl
  | succ remaining ih =>
    unfold layers
    rw [expand_of]
    simp only [ih]

theorem graph_of {order : Query.RowOrder Relationship} {query : GraphQuery} :
    graph order tenantId query (s.of tenantId) = graph order tenantId query s := by
  have hsearch : graphSearch order tenantId query (s.of tenantId) = graphSearch order tenantId query s := layers_of
  have hnodes : ∀ ids, getNodes tenantId ids (s.of tenantId) = getNodes tenantId ids s := fun ids =>
    filter_ofOwner fun _ hn => (of_decide_eq_true hn).1
  unfold graph
  rw [hsearch]
  simp only [hnodes]

end Functions

/-! ### Operations -/

/-- A call of `RelationshipService` or of `list_edges`, in a transaction of its own. -/
inductive Operation where
  | projectAndExtract (host : Host) (event : ResourceProjectionEvent)
  | rebuildAll (host : Host) (tenantId : Uuid)
  | graph (order : Query.RowOrder Relationship) (tenantId : Uuid) (query : GraphQuery)
  | listEdges (tenantId : Uuid) (q : EdgeFilter)

/-- The tenant the call is for. -/
def Operation.tenantId : Operation → Uuid
  | .projectAndExtract _ event => event.tenantId
  | .rebuildAll _ tenantId => tenantId
  | .graph _ tenantId _ => tenantId
  | .listEdges tenantId _ => tenantId

inductive Reply where
  | changed (result : Except Failure Nat)
  | graph (result : GraphResponse)
  | edges (result : List Relationship)

/-- The ids the call may draw are in no other tenant's rows. -/
def Operation.Fresh : Operation → Store → Prop
  | .projectAndExtract host event, s => NewRows host event.tenantId s
  | .rebuildAll host tenantId, s => NewEdges host tenantId s
  | _, _ => True

section Run
variable (py : Python) {tenantId : Uuid} {op : Operation} {s s' : Store}

def runOperation (op : Operation) (s : Store) : Reply × Store :=
  match op with
  | .projectAndExtract host event =>
    let (a, s) := Fallible.transaction (projectAndExtract py host event s) s
    (.changed a, s)
  | .rebuildAll host tenantId =>
    let (a, s) := Fallible.transaction (rebuildAll py host tenantId s) s
    (.changed a, s)
  | .graph order tenantId query => (.graph (graph order tenantId query s), s)
  | .listEdges tenantId q => (.edges (listEdges tenantId q s), s)

/-- A call needs no other rows than those of its tenant. -/
theorem runOperation_of (hfresh : op.Fresh s) :
    runOperation py op (s.of op.tenantId) =
      ((runOperation py op s).1, (runOperation py op s).2.of op.tenantId) := by
  cases op with
  | projectAndExtract host event =>
    have h : Fallible.transaction (projectAndExtract py host event (s.of event.tenantId)) (s.of event.tenantId) = _ :=
      confined_projectAndExtract.transaction_of hfresh
    exact congrArg (fun p : _ × Store => (Reply.changed p.1, p.2)) h
  | rebuildAll host tenantId =>
    have h : Fallible.transaction (rebuildAll py host tenantId (s.of tenantId)) (s.of tenantId) = _ :=
      confined_rebuildAll.transaction_of hfresh
    exact congrArg (fun p : _ × Store => (Reply.changed p.1, p.2)) h
  | graph order tenantId query => exact congrArg (fun a => (Reply.graph a, _)) graph_of
  | listEdges tenantId q => exact congrArg (fun a => (Reply.edges a, _)) (listEdges_of q)

/-- A call writes to the rows of its tenant only. -/
theorem runOperation_written (op : Operation) (s : Store) :
    Store.WrittenBy op.tenantId s (runOperation py op s).2 := by
  cases op with
  | projectAndExtract => exact confined_projectAndExtract.transaction_written (.refl s)
  | rebuildAll => exact confined_rebuildAll.transaction_written (.refl s)
  | graph | listEdges => exact .refl s

theorem Operation.Fresh.before (h : op.Fresh s') (hwritten : Store.WrittenBy tenantId s s') : op.Fresh s := by
  cases op with
  | projectAndExtract => exact ⟨h.node.before hwritten.nodes, fun n => (h.edges n).before hwritten.edges⟩
  | rebuildAll => exact fun n => NewTo.before (h n) hwritten.edges
  | graph | listEdges => exact trivial

theorem Operation.Fresh.after (h : op.Fresh s) (hwritten : Store.WrittenBy op.tenantId s s') : op.Fresh s' := by
  cases op with
  | projectAndExtract => exact NewRows.after hwritten h
  | rebuildAll => exact NewEdges.after hwritten h
  | graph | listEdges => exact trivial

end Run
end Sentinel.Relationships
