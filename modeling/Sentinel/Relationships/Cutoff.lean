import Sentinel.Relationships.Answers

/-! Where a graph search is cut off.

`max_nodes` is compared with the nodes visited after both ends of an edge have been added,
and reaching it counts as exceeding it. One edge adds one node, so an answer has more than
`max_nodes` nodes only for `max_nodes = 1` (`max_nodes_respected_iff`), and a neighbourhood
of just `max_nodes` ids is reported as cut off (`whole_when_fits_iff`). -/
namespace Sentinel.Relationships
open Library Common

/-- What the schema asks of a query. -/
structure GraphQuery.Accepted (query : GraphQuery) : Prop where
  maxDepth : 1 ≤ query.maxDepth ∧ query.maxDepth ≤ 10
  maxNodes : 1 ≤ query.maxNodes ∧ query.maxNodes ≤ 2000
  relationshipTypes : query.relationshipTypes.length ≤ 25

/-- The tenant has a node of the resource. -/
def HasNode (tenantId : Uuid) (s : Store) (x : Uuid) : Prop :=
  ∃ n ∈ s.nodes, n.tenantId = tenantId ∧ n.inventoryResourceId = x

instance (tenantId : Uuid) (s : Store) : DecidablePred (HasNode tenantId s) := fun x =>
  inferInstanceAs (Decidable (∃ n ∈ s.nodes, n.tenantId = tenantId ∧ n.inventoryResourceId = x))

/-- The first edge of the root that passes the filter. -/
def firstEdge (order : Query.RowOrder Relationship) (tenantId : Uuid) (query : GraphQuery) (s : Store) :
    Option Relationship :=
  (order.arrange 0 (edgesForFrontier tenantId {query.rootResourceId} query.direction s)).find? query.allows

/-! ### Counting what is visited -/

/-- How many ids are visited, before and after the search is cut off. -/
structure Counted (query : GraphQuery) (visited : Finset Uuid) (byId : List (Uuid × Relationship))
    (truncated : Bool) : Prop where
  bound : visited.card ≤ max 2 query.maxNodes
  more : truncated = false →
    visited.card < max 2 query.maxNodes ∧ (visited.card < query.maxNodes ∨ byId = [])
  full : truncated = true → query.maxNodes ≤ visited.card ∧ byId ≠ []

section Search
variable {order : Query.RowOrder Relationship} {tenantId : Uuid} {query : GraphQuery} {s : Store} {k : Nat}
  {visited next : Finset Uuid} {byId : List (Uuid × Relationship)}

/-- An edge that leaves something visited adds one id at most. -/
theorem card_ends_le {a b : Uuid} (h : a ∈ visited ∨ b ∈ visited) :
    (insert a (insert b visited)).card ≤ visited.card + 1 := by
  cases h with
  | inl ha =>
    rw [Finset.insert_eq_of_mem (Finset.mem_insert_of_mem ha)]
    exact Finset.card_insert_le b visited
  | inr hb =>
    rw [Finset.insert_eq_of_mem hb]
    exact Finset.card_insert_le a visited

theorem end_of_leaves {direction : Direction} {x : Uuid} {e : Relationship} (h : Leaves direction x e) :
    x = e.sourceResourceId ∨ x = e.targetResourceId := by
  cases direction with
  | downstream => exact .inl h.symm
  | upstream => exact .inr h.symm
  | both => exact h.imp Eq.symm Eq.symm

theorem scan_counted {edges : List Relationship}
    (hedges : ∀ e ∈ edges, query.allows e → e.sourceResourceId ∈ visited ∨ e.targetResourceId ∈ visited)
    (hbound : (visited ∪ next).card < max 2 query.maxNodes)
    (hmore : (visited ∪ next).card < query.maxNodes ∨ byId = []) :
    Counted query (visited ∪ (scan query visited edges next byId).1) (scan query visited edges next byId).2.1
      (scan query visited edges next byId).2.2 := by
  induction edges generalizing next byId with
  | nil => exact ⟨hbound.le, fun _ => ⟨hbound, hmore⟩, by simp [scan]⟩
  | cons e rest ih =>
    have hrest : ∀ r ∈ rest, query.allows r → r.sourceResourceId ∈ visited ∨ r.targetResourceId ∈ visited :=
      fun r hr => hedges r (List.mem_cons_of_mem e hr)
    rw [scan]
    by_cases hallows : query.allows e
    · rw [if_pos hallows]
      have hends : (visited ∪ insert e.sourceResourceId (insert e.targetResourceId next)).card ≤
          (visited ∪ next).card + 1 := by
        rw [Finset.union_insert, Finset.union_insert]
        apply card_ends_le
        exact (hedges e List.mem_cons_self hallows).imp (Finset.mem_union_left _) (Finset.mem_union_left _)
      by_cases hfull : query.maxNodes ≤
          (visited ∪ insert e.sourceResourceId (insert e.targetResourceId next)).card
      · rw [if_pos hfull]
        exact ⟨hends.trans hbound, by simp, fun _ => ⟨hfull, Dict.set_ne_nil byId e.id e⟩⟩
      · rw [if_neg hfull]
        exact ih hrest (by omega) (.inl (by omega))
    · rw [if_neg hallows]
      exact ih hrest hbound hmore

theorem counted_expand {search : Search} (hconnected : Connected tenantId query s k search)
    (h : Counted query search.visited search.edgesById search.truncated) (hmore : search.truncated = false) :
    Counted query (expand order tenantId query s k search).visited (expand order tenantId query s k search).edgesById
      (expand order tenantId query s k search).truncated := by
  obtain ⟨hbound, hroom⟩ := h.more hmore
  have hedges : ∀ e ∈ order.arrange k (edgesForFrontier tenantId search.frontier query.direction s),
      query.allows e → e.sourceResourceId ∈ search.visited ∨ e.targetResourceId ∈ search.visited := by
    intro e he hallows
    obtain ⟨_, x, hx, hleaves⟩ := mem_layer.mp ⟨he, hallows⟩
    have hvisited : x ∈ search.visited := hconnected.frontier hx
    cases end_of_leaves hleaves with
    | inl heq => exact .inl (heq ▸ hvisited)
    | inr heq => exact .inr (heq ▸ hvisited)
  show Counted query (search.visited ∪ (_ \ search.visited)) _ _
  rw [Finset.union_sdiff_self_eq_union]
  apply scan_counted hedges
  · rw [Finset.union_empty]
    exact hbound
  · rw [Finset.union_empty]
    exact hroom

theorem counted_layers {remaining : Nat} {search : Search} (hconnected : Connected tenantId query s k search)
    (h : Counted query search.visited search.edgesById search.truncated) (hmore : search.truncated = false) :
    Counted query (layers order tenantId query s remaining k search).visited
      (layers order tenantId query s remaining k search).edgesById
      (layers order tenantId query s remaining k search).truncated := by
  induction remaining generalizing k search with
  | zero => exact h
  | succ remaining ih =>
    rw [layers]
    by_cases hstop : (expand order tenantId query s k search).truncated ∨
        (expand order tenantId query s k search).frontier = ∅
    · rw [if_pos hstop]
      exact counted_expand hconnected h hmore
    · rw [if_neg hstop]
      apply ih (connected_expand hconnected) (counted_expand hconnected h hmore)
      simpa using fun htruncated => hstop (.inl htruncated)

theorem counted_graphSearch : Counted query (graphSearch order tenantId query s).visited
    (graphSearch order tenantId query s).edgesById (graphSearch order tenantId query s).truncated := by
  apply counted_layers connected_start _ rfl
  refine ⟨?_, fun _ => ⟨?_, .inr rfl⟩, fun h => nomatch h⟩
  · rw [Finset.card_singleton]
    omega
  · rw [Finset.card_singleton]
    omega

/-! ### The bound on the nodes of an answer -/

theorem length_nodes_graph : (graph order tenantId query s).nodes.length =
    ((graphSearch order tenantId query s).visited.filter (HasNode tenantId s)).card := by
  have hnodup : ((graph order tenantId query s).nodes.map GraphNode.id).Nodup := by
    show (((getNodes tenantId _ s).map graphNode).map GraphNode.id).Nodup
    rw [List.map_map]
    exact nodup_resources fun n hn => (of_decide_eq_true hn).1
  rw [← List.length_map GraphNode.id, ← List.toFinset_card_of_nodup hnodup]
  congr 1
  ext x
  rw [List.mem_toFinset, mem_ids_graph, Finset.mem_filter, and_comm]
  rfl

/-- With no room at all, the first edge that passes the filter ends the scan. -/
theorem scan_of_no_room {edges : List Relationship} (hfull : query.maxNodes ≤ visited.card) :
    scan query visited edges next byId =
      match edges.find? query.allows with
      | none => (next, byId, false)
      | some e => (insert e.sourceResourceId (insert e.targetResourceId next), Dict.set byId e.id e, true) := by
  induction edges with
  | nil => rfl
  | cons e rest ih =>
    rw [scan, List.find?_cons]
    by_cases hallows : query.allows e
    · have hstill : query.maxNodes ≤
          (visited ∪ insert e.sourceResourceId (insert e.targetResourceId next)).card :=
        hfull.trans (Finset.card_le_card Finset.subset_union_left)
      rw [if_pos hallows, if_pos hstill]
      simp [hallows]
    · rw [if_neg hallows, ih]
      simp [hallows]

/-- With room for the root alone, the search visits the ends of the first edge. -/
theorem visited_of_one (hdepth : 1 ≤ query.maxDepth) (hnodes : query.maxNodes = 1) :
    (graphSearch order tenantId query s).visited =
      match firstEdge order tenantId query s with
      | none => {query.rootResourceId}
      | some e => {e.sourceResourceId, e.targetResourceId} := by
  obtain ⟨remaining, hremaining⟩ := Nat.exists_eq_add_of_le' hdepth
  have hscan := @scan_of_no_room query {query.rootResourceId} ∅ []
    (order.arrange 0 (edgesForFrontier tenantId {query.rootResourceId} query.direction s))
    (by rw [hnodes, Finset.card_singleton])
  unfold graphSearch firstEdge
  rw [hremaining, layers]
  cases hfind : (order.arrange 0 (edgesForFrontier tenantId {query.rootResourceId} query.direction s)).find?
      query.allows with
  | none =>
    rw [hfind] at hscan
    simp [expand, hscan]
  | some e =>
    rw [hfind] at hscan
    have hedge : e ∈ order.arrange 0 (edgesForFrontier tenantId {query.rootResourceId} query.direction s) ∧
        query.allows e := ⟨List.mem_of_find?_eq_some hfind, List.find?_some hfind⟩
    obtain ⟨_, x, hx, hleaves⟩ := mem_layer.mp hedge
    rw [Finset.mem_singleton] at hx
    have hroot := end_of_leaves hleaves
    rw [hx] at hroot
    cases hroot with
    | inl heq => simp [expand, hscan, ← heq]
    | inr heq => simp [expand, hscan, ← heq]

theorem card_filter_pair {a b : Uuid} (hab : a ≠ b) (p : Uuid → Prop) [DecidablePred p] :
    (({a, b} : Finset Uuid).filter p).card ≤ 1 ↔ ¬ (p a ∧ p b) := by
  rw [Finset.filter_insert, Finset.filter_singleton]
  split_ifs <;> simp [*]

/-- **An answer has at most `max_nodes` nodes** unless `max_nodes` is 1 and the first edge of
the root that passes the filter has the nodes of both its ends. -/
theorem max_nodes_respected_iff (order : Query.RowOrder Relationship) (tenantId : Uuid) (query : GraphQuery)
    (s : Store) (haccepted : query.Accepted) :
    (graph order tenantId query s).nodes.length ≤ query.maxNodes ↔
      2 ≤ query.maxNodes ∨ ∀ e, firstEdge order tenantId query s = some e →
        ¬ (HasNode tenantId s e.sourceResourceId ∧ HasNode tenantId s e.targetResourceId) := by
  rw [length_nodes_graph]
  by_cases htwo : 2 ≤ query.maxNodes
  · apply iff_of_true _ (.inl htwo)
    have hbound : (graphSearch order tenantId query s).visited.card ≤ max 2 query.maxNodes :=
      counted_graphSearch.bound
    rw [max_eq_right htwo] at hbound
    exact (Finset.card_filter_le _ _).trans hbound
  · have hone : query.maxNodes = 1 := by
      have hpositive := haccepted.maxNodes.1
      omega
    rw [or_iff_right htwo, visited_of_one haccepted.maxDepth.1 hone, hone]
    cases hfirst : firstEdge order tenantId query s with
    | none =>
      apply iff_of_true
      · exact (Finset.card_filter_le _ _).trans (Finset.card_singleton _).le
      · exact fun e he => nomatch he
    | some e =>
      have hrow : e ∈ s.edges := by
        have hfound := (order.perm _ _).mem_iff.mp (List.mem_of_find?_eq_some hfirst)
        exact List.mem_of_mem_filter hfound
      rw [card_filter_pair (s.noSelfLoop e hrow)]
      simp

/-- Resource 1 is shown together with resource 2. -/
theorem max_nodes_exceeded_sampleStore : ({sampleQuery with maxNodes := 1} : GraphQuery).Accepted ∧
    ¬ (graph (.stored _) 7 {sampleQuery with maxNodes := 1} sampleStore).nodes.length ≤ 1 :=
  ⟨⟨by decide, by decide, by decide⟩, by decide +kernel⟩

theorem max_nodes_respected_sampleStore :
    (graph (.stored _) 7 {sampleQuery with maxNodes := 2} sampleStore).nodes.length ≤ 2 :=
  (max_nodes_respected_iff (.stored _) 7 {sampleQuery with maxNodes := 2} sampleStore
    ⟨by decide, by decide, by decide⟩).mpr (.inl (by decide))

end Search

/-! ### Neighbourhoods that fit -/

section Whole
variable {order : Query.RowOrder Relationship} {tenantId : Uuid} {query : GraphQuery} {s : Store}

/-- What is reached is the root, or an end of an edge. -/
theorem finite_reached {n : Nat} : {x | Reached tenantId query s n x}.Finite := by
  have hends : {x | Reached tenantId query s n x} ⊆
      {query.rootResourceId} ∪ {x | x ∈ s.edges.map Relationship.sourceResourceId} ∪
        {x | x ∈ s.edges.map Relationship.targetResourceId} := by
    intro x hx
    cases hx with
    | root => exact .inl (.inl rfl)
    | hop _ hhop =>
      obtain ⟨e, husable, hjoins⟩ := hhop
      cases (leaves_of_joins hjoins).2 with
      | inl heq => exact .inl (.inr (heq ▸ List.mem_map_of_mem husable.1))
      | inr heq => exact .inr (heq ▸ List.mem_map_of_mem husable.1)
  apply Set.Finite.subset _ hends
  exact ((Set.finite_singleton _).union (List.finite_toSet _)).union (List.finite_toSet _)

/-- The search visits no more than the neighbourhood, and more than the root once it has
collected an edge. -/
theorem visited_card_le : (graphSearch order tenantId query s).visited.card ≤
      {x | Reached tenantId query s query.maxDepth x}.ncard ∧
    ((graphSearch order tenantId query s).edgesById ≠ [] → 2 ≤ (graphSearch order tenantId query s).visited.card) ∧
    ((graphSearch order tenantId query s).edgesById = [] → (graphSearch order tenantId query s).visited.card = 1) := by
  have hconnected : Connected tenantId query s query.maxDepth (graphSearch order tenantId query s) :=
    connected_graphSearch
  obtain ⟨P, hrooted⟩ := hconnected.rooted
  refine ⟨?_, ?_, ?_⟩
  · rw [← Set.ncard_coe_finset]
    exact Set.ncard_le_ncard (fun x hx => hrooted.reached hx) finite_reached
  · intro hsome
    obtain ⟨p, hp⟩ := List.exists_mem_of_ne_nil _ hsome
    obtain ⟨e, hrow, he, _⟩ := (hrooted.collected.mem p).mp hp
    obtain ⟨hsource, htarget⟩ := hrooted.ends e he
    exact Finset.one_lt_card.mpr ⟨_, hsource, _, htarget, s.noSelfLoop e hrow⟩
  · intro hnone
    have honly : ∀ x ∈ (graphSearch order tenantId query s).visited, x = query.rootResourceId := by
      intro x hx
      have hpath := hrooted.paths x hx
      generalize query.maxDepth = n at hpath
      cases hpath with
      | root => rfl
      | hop _ hvia =>
        obtain ⟨e, he, _⟩ := hvia
        have hmem := (hrooted.collected.mem (e.id, e)).mpr ⟨e, (hrooted.usable e he).1, he, rfl⟩
        rw [hnone] at hmem
        exact nomatch hmem
    exact Finset.card_eq_one.mpr ⟨_, Finset.eq_singleton_iff_unique_mem.mpr ⟨hrooted.root, honly⟩⟩

/-- A search that is not cut off visits the whole neighbourhood. -/
theorem visited_card_eq (hwhole : (graphSearch order tenantId query s).truncated = false) :
    (graphSearch order tenantId query s).visited.card =
      {x | Reached tenantId query s query.maxDepth x}.ncard := by
  have hcomplete := complete_graphSearch hwhole
  rw [← Set.ncard_coe_finset]
  congr 1
  ext x
  exact hcomplete.visited x

/-- **A neighbourhood that fits is returned whole** unless it has just `max_nodes` ids, the
root and more: then it is reported as cut off. -/
theorem whole_when_fits_iff (order : Query.RowOrder Relationship) (tenantId : Uuid) (query : GraphQuery)
    (s : Store) :
    ({x | Reached tenantId query s query.maxDepth x}.ncard ≤ query.maxNodes →
      (graph order tenantId query s).truncated = false ∧
        ∀ e, LeavesWithin tenantId query s query.maxDepth e → graphEdge e ∈ (graph order tenantId query s).edges) ↔
    {x | Reached tenantId query s query.maxDepth x}.ncard ≠ query.maxNodes ∨
      {x | Reached tenantId query s query.maxDepth x}.ncard = 1 := by
  have hcounted : Counted query (graphSearch order tenantId query s).visited
      (graphSearch order tenantId query s).edgesById (graphSearch order tenantId query s).truncated :=
    counted_graphSearch
  obtain ⟨hle, hsome, hnone⟩ := @visited_card_le order tenantId query s
  refine ⟨?_, ?_⟩
  · intro hfits
    by_contra hcase
    push Not at hcase
    obtain ⟨hall, hmore⟩ := hcase
    have hwhole : (graphSearch order tenantId query s).truncated = false := (hfits hall.le).1
    have hcard := visited_card_eq hwhole
    cases (hcounted.more hwhole).2 with
    | inl hlt => omega
    | inr hempty => exact hmore (hcard.symm.trans (hnone hempty))
  · intro hcase hfits
    have hwhole : (graph order tenantId query s).truncated = false := by
      by_contra hcut
      rw [Bool.not_eq_false] at hcut
      obtain ⟨hfull, hcollected⟩ := hcounted.full hcut
      have htwo := hsome hcollected
      omega
    refine ⟨hwhole, ?_⟩
    intro e he
    exact ((graph_exact order tenantId query s hwhole).2.2 _).mpr ⟨e, he, rfl⟩

/-- Three ids are within reach, and three may be visited. -/
theorem whole_fails_sampleStore :
    ¬ ({x | Reached 7 {sampleQuery with maxNodes := 3} sampleStore 3 x}.ncard ≤ 3 →
      (graph (.stored _) 7 {sampleQuery with maxNodes := 3} sampleStore).truncated = false ∧
        ∀ e, LeavesWithin 7 {sampleQuery with maxNodes := 3} sampleStore 3 e →
          graphEdge e ∈ (graph (.stored _) 7 {sampleQuery with maxNodes := 3} sampleStore).edges) := by
  intro hfits
  have hcut : (graph (.stored _) 7 {sampleQuery with maxNodes := 3} sampleStore).truncated = true := by
    decide +kernel
  have hids : {x | Reached 7 {sampleQuery with maxNodes := 3} sampleStore 3 x} ⊆ (({1, 2, 3} : Finset Uuid) : Set Uuid) := by
    intro x hx
    cases hx with
    | root => simp [sampleQuery]
    | hop _ hhop =>
      obtain ⟨e, husable, hjoins⟩ := hhop
      have hrow : e ∈ sampleStore.edges := husable.1
      have hend := (leaves_of_joins hjoins).2
      simp only [sampleStore, sampleEdge, List.mem_cons, List.not_mem_nil, or_false] at hrow
      rcases hrow with rfl | rfl | rfl <;> rcases hend with rfl | rfl <;> simp
  have hthree := Set.ncard_le_ncard hids (Finset.finite_toSet _)
  rw [Set.ncard_coe_finset] at hthree
  have hwhole := (hfits (hthree.trans (by decide))).1
  rw [hcut] at hwhole
  cases hwhole

end Whole
end Sentinel.Relationships
