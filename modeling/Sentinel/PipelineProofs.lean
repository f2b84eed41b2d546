import Sentinel.Inventory.Jobs
import Sentinel.Inventory.Stored
import Sentinel.Pipeline
import Sentinel.Relationships.Projection
import Sentinel.Relationships.Tenants

/-! What the graph holds, whatever workers crash, give up or overtake each other.

The service knows a resource by the id of its row in the inventory, and a row keeps its id
and its ARM id, so the two constraints on nodes never meet. What was posted of a job is
projected by the time its worker goes on. -/
namespace Sentinel.Pipeline
open Library Library.Transition Common
open Relationships (ResourceProjectionEvent)

/-! ### The inventory keeps its resources -/

/-- Each row is there yet, under its id and its key. -/
def Keeps (s s' : Inventory.Store) : Prop :=
  ∀ r ∈ s.resources, ∃ r' ∈ s'.resources, r'.id = r.id ∧ r'.key = r.key

section Keeps
variable {host : Inventory.Host}

theorem Keeps.of_eq {s s' : Inventory.Store} (h : s'.resources = s.resources) : Keeps s s' :=
  fun r hr => ⟨r, h ▸ hr, rfl, rfl⟩

theorem keeps_next {locked : List Uuid} {a : Inventory.Step} {phase phase' : Inventory.Phase}
    {s s' : Inventory.Shared} (h : Inventory.Next host locked s a phase phase' s') : Keeps s.store s'.store := by
  cases h with
  | register hregister => exact .of_eq (Inventory.register_frame hregister).2.1
  | store hstore =>
    intro r hr
    obtain ⟨r', hr', hid, hkey, -⟩ := Inventory.storeItems_kept hstore hr
    exact ⟨r', hr', hid, hkey⟩
  | _ => exact .of_eq rfl

theorem keeps_step {a : Inventory.Action} {s s' : Inventory.State} (h : Inventory.step host a s = some s') :
    Keeps s.shared.store s'.shared.store := by
  cases a with
  | boot =>
    cases h
    exact .of_eq rfl
  | enqueue id requestedAt r =>
    unfold Inventory.step at h
    dsimp only at h
    split at h
    · cases h
    · rename_i hcreate
      cases h
      rcases Inventory.createSyncJob_cases hcreate with ⟨-, rfl⟩ | ⟨-, -, -, hinsert⟩
      · exact .of_eq rfl
      · exact .of_eq (Inventory.insertJob_rows hinsert).2.2.2
  | worker w a =>
    obtain ⟨phase, phase', shared, -, hnext, rfl⟩ := Inventory.worker_step h
    exact keeps_next hnext

end Keeps

/-- The inventory has the resource under this id. -/
def Known (s : Inventory.Store) (tenantId id : Uuid) (arm : String) : Prop :=
  ∃ r ∈ s.resources, r.id = id ∧ r.key = (tenantId, arm)

section Known
variable {s s' : Inventory.Store} {tenantId id id' : Uuid} {arm arm' : String}

theorem Known.mono (h : Known s tenantId id arm) (hs : Keeps s s') : Known s' tenantId id arm := by
  obtain ⟨r, hr, hid, hkey⟩ := h
  obtain ⟨r', hr', hid', hkey'⟩ := hs r hr
  exact ⟨r', hr', hid'.trans hid, hkey'.trans hkey⟩

/-- One id, one ARM id. -/
theorem Known.eq_iff (h : Known s tenantId id arm) (h' : Known s tenantId id' arm') : id = id' ↔ arm = arm' := by
  obtain ⟨r, hr, rfl, hkey⟩ := h
  obtain ⟨r', hr', rfl, hkey'⟩ := h'
  refine ⟨fun heq => ?_, fun heq => ?_⟩
  · rw [s.resourceIds.eq hr hr' heq, hkey'] at hkey
    exact (congrArg Prod.snd hkey).symm
  · rw [s.resourceKeys.eq hr hr' (hkey.trans (heq ▸ hkey'.symm))]

end Known

/-! ### The graph of one tenant -/

/-- The tenant's events. -/
def eventsOf (tenantId : Uuid) (events : List ResourceProjectionEvent) : List ResourceProjectionEvent :=
  events.filter fun e => e.tenantId = tenantId

section Projected
open Relationships
variable {py : Python} {tenantId : Uuid} {events : List ResourceProjectionEvent} {s s' : Store}

theorem projected_congr (h : Projected py tenantId events s) (hof : s'.of tenantId = s.of tenantId) :
    Projected py tenantId events s' := by
  have hnode : ∀ n, n.tenantId = tenantId → (n ∈ s'.nodes ↔ n ∈ s.nodes) := by
    intro n hn
    have hmem := congrArg (fun s : Store => n ∈ s.nodes) hof
    simpa [Store.of, Table.ofOwner, hn] using hmem
  have hedge : ∀ e, e.tenantId = tenantId → (e ∈ s'.edges ↔ e ∈ s.edges) := by
    intro e he
    have hmem := congrArg (fun s : Store => e ∈ s.edges) hof
    simpa [Store.of, Table.ofOwner, he] using hmem
  refine ⟨fun n hn htenant => h.node n ((hnode n htenant).mp hn) htenant, fun e he => ?_, ?_⟩
  · obtain ⟨n, hn, hkey⟩ := List.mem_map.mp (h.covered e he)
    exact List.mem_map.mpr ⟨n, (hnode n (congrArg Prod.fst hkey)).mpr hn, hkey⟩
  · refine ⟨fun e he htenant => ?_, fun e he htenant => ?_, fun e he htenant => ?_⟩
    · exact h.madeBy.relationshipType e ((hedge e htenant).mp he) htenant
    · exact h.madeBy.sourceSystem e ((hedge e htenant).mp he) htenant
    · exact h.madeBy.extractorName e ((hedge e htenant).mp he) htenant

theorem projected_rebuilt {host : Host} {changed : Nat} (h : Projected py tenantId events s)
    (hrebuilt : rebuildAll py host tenantId s = .ok (changed, s')) : Projected py tenantId events s' := by
  have hstart : Shows host tenantId (armReferenceExtractor py) (s.edges.map Relationship.id) s.nodes
      (Arrow tenantId s) 0 s :=
    ⟨rfl, h.madeBy, fun e he => .inl (List.mem_map_of_mem he), fun _ _ => Iff.rfl⟩
  have hshows := (rebuildNodes_spec hstart).of_ok hrebuilt
  refine ⟨?_, ?_, hshows.madeBy⟩
  · rw [hshows.nodes]
    exact h.node
  · rw [hshows.nodes]
    exact h.covered

/-- One event more, of a resource the inventory has. -/
theorem projected_event {host : Host} {changed : Nat} {event : ResourceProjectionEvent}
    (h : ∀ tenantId, Projected py tenantId (eventsOf tenantId events) s)
    (harm : OneArmId py (eventsOf event.tenantId (events ++ [event])))
    (hproject : projectAndExtract py host event s = .ok (changed, s')) :
    ∀ tenantId, Projected py tenantId (eventsOf tenantId (events ++ [event])) s' := by
  intro tenantId
  unfold eventsOf at *
  rw [List.filter_append, List.filter_singleton] at *
  by_cases htenant : event.tenantId = tenantId
  · subst htenant
    rw [decide_eq_true rfl] at *
    exact (projectAndExtract_spec (h event.tenantId) rfl harm host).of_ok hproject
  · rw [decide_eq_false htenant, cond_false, List.append_nil]
    have hwritten := confined_projectAndExtract.written _ _ hproject
    exact projected_congr (h tenantId) (hwritten.others fun heq => htenant heq.symm)

end Projected

/-! ### What holds in every state -/

/-- The latest words of the inventory on the resource: its ARM id in lower case. -/
def KnownEvent (py : Python) (s : Inventory.Store) (e : ResourceProjectionEvent) : Prop :=
  Known s e.tenantId e.inventoryResourceId (py.lower e.azureResourceId)

def KnownProjection (py : Python) (s : Inventory.Store) (p : Inventory.Projection) : Prop :=
  Known s p.tenantId p.inventoryResourceId (py.lower p.azureResourceId)

/-- The item is yet to be posted, or was projected. -/
def Underway (py : Python) (tenantId : Uuid) (rest : List Inventory.Projection)
    (accepted : List ResourceProjectionEvent) (item : Json.Object) : Prop :=
  ∃ id, item.get "id" = some id ∧
    ((∃ p ∈ rest, py.lower p.azureResourceId = py.lower (py.str id)) ∨
      ∃ e ∈ accepted, e.tenantId = tenantId ∧ py.lower e.azureResourceId = py.lower (py.str id))

/-- Where the job of a worker is. -/
inductive Fits (py : Python) (s : Inventory.Store) (accepted : List ResourceProjectionEvent)
    (listed : List Json.Object) : Inventory.Phase → Prop
  | storing (job : Inventory.SyncJob) (subscriptions : List (Uuid × Inventory.Subscription)) :
      Fits py s accepted listed (.storing job subscriptions listed)
  | projecting (job : Inventory.SyncJob) (rest : List Inventory.Projection)
      (known : ∀ p ∈ rest, p.tenantId = job.tenantId ∧ KnownProjection py s p)
      (underway : ∀ item ∈ listed, Underway py job.tenantId rest accepted item) :
      Fits py s accepted listed (.projecting job rest)
  | other (phase : Inventory.Phase) (hstoring : ∀ job subscriptions resources, phase ≠ .storing job subscriptions resources)
      (hprojecting : nextRequest phase = none) : Fits py s accepted listed phase

structure Inv (py : Python) (s : State) : Prop where
  workers : ∀ w phase, s.inventory.workers[w]? = some phase →
    Fits py s.inventory.shared.store s.accepted (s.listed w) phase
  known : ∀ p response, ⟨.resource p, response⟩ ∈ s.calls → KnownProjection py s.inventory.shared.store p
  served : ∀ p, ⟨.resource p, some (.ok ())⟩ ∈ s.calls → ∃ e ∈ s.accepted, Carries p e
  failures : ∀ r f, ⟨r, some (.error (.failed f))⟩ ∈ s.calls → f = .refused ∨ f = .primaryKey
  waiting : ∀ w i, s.waiting w = some i → ∃ phase c, s.inventory.workers[w]? = some phase ∧ s.calls[i]? = some c ∧
    nextRequest phase = some c.request
  accepted : ∀ e ∈ s.accepted, KnownEvent py s.inventory.shared.store e
  projected : ∀ tenantId, Relationships.Projected py tenantId (eventsOf tenantId s.accepted) s.graph

section Inv
variable {py : Python} {s : State}

theorem Underway.mono {tenantId : Uuid} {rest : List Inventory.Projection}
    {accepted accepted' : List ResourceProjectionEvent} {item : Json.Object}
    (h : Underway py tenantId rest accepted item) (hsub : accepted ⊆ accepted') :
    Underway py tenantId rest accepted' item := by
  obtain ⟨id, hid, hplace⟩ := h
  exact ⟨id, hid, hplace.imp_right fun ⟨e, he, hrest⟩ => ⟨e, hsub he, hrest⟩⟩

theorem Fits.mono {store store' : Inventory.Store} {accepted accepted' : List ResourceProjectionEvent}
    {listed : List Json.Object} {phase : Inventory.Phase} (h : Fits py store accepted listed phase)
    (hkeeps : Keeps store store') (hsub : accepted ⊆ accepted') : Fits py store' accepted' listed phase := by
  cases h with
  | storing job subscriptions => exact .storing job subscriptions
  | projecting job rest known underway =>
    exact .projecting job rest (fun p hp => ⟨(known p hp).1, (known p hp).2.mono hkeeps⟩)
      fun item hitem => (underway item hitem).mono hsub
  | other _ hstoring hprojecting => exact .other phase hstoring hprojecting

theorem inv_initial : Inv py initial where
  workers := by simp [initial, Inventory.initial]
  known := by simp [initial]
  served := by simp [initial]
  failures := by simp [initial]
  waiting := by simp [initial]
  accepted := by simp [initial]
  projected := by
    intro tenantId
    refine ⟨by simp [initial, Relationships.Store.empty], by simp [initial, eventsOf], ?_⟩
    constructor <;> simp [initial, Relationships.Store.empty]

/-- The events of a tenant name each resource by one ARM id. -/
theorem oneArmId {store : Inventory.Store} {events : List ResourceProjectionEvent}
    (h : ∀ e ∈ events, KnownEvent py store e) (tenantId : Uuid) :
    Relationships.OneArmId py (eventsOf tenantId events) := by
  intro e he f hf
  obtain ⟨he, hetenant⟩ := List.mem_filter.mp he
  obtain ⟨hf, hftenant⟩ := List.mem_filter.mp hf
  have hknown := h e he
  have hknown' := h f hf
  unfold KnownEvent at hknown hknown'
  rw [of_decide_eq_true hetenant] at hknown
  rw [of_decide_eq_true hftenant] at hknown'
  exact hknown.eq_iff hknown'

end Inv

/-! ### The service -/

section Serve
variable {settings : Settings} {inventoryHost : Inventory.Host} {host : Relationships.Host} {r : Request}
  {graph graph' : Relationships.Store}

theorem handle_eq_ok {event : Option ResourceProjectionEvent}
    (h : handle settings inventoryHost host r graph = .ok (event, graph')) :
    (∃ p e changed, r = .resource p ∧ event = some e ∧ Carries p e ∧
      Relationships.projectAndExtract inventoryHost.py host e graph = .ok (changed, graph')) ∨
    ∃ tenantId changed, r = .rebuild tenantId ∧ event = none ∧
      Relationships.rebuildAll inventoryHost.py host tenantId graph = .ok (changed, graph') := by
  unfold handle at h
  split at h
  · rename_i p
    split at h
    · cases h
    · rename_i e hvalidate
      split_ifs at h
      split at h
      · cases h
      · rename_i changed _ hproject
        cases h
        exact .inl ⟨p, e, changed, rfl, rfl, modelValidate_payload.mp hvalidate, hproject⟩
  · rename_i tenantId
    split_ifs at h
    split at h
    · cases h
    · rename_i changed _ hrebuilt
      cases h
      exact .inr ⟨tenantId, changed, rfl, rfl, hrebuilt⟩

theorem handle_failed {f : Relationships.Failure}
    (h : handle settings inventoryHost host r graph = .error (.failed f)) :
    (∃ p e, r = .resource p ∧ Carries p e ∧
      Relationships.projectAndExtract inventoryHost.py host e graph = .error f) ∨
    ∃ tenantId, r = .rebuild tenantId ∧
      Relationships.rebuildAll inventoryHost.py host tenantId graph = .error f := by
  unfold handle at h
  split at h
  · rename_i p
    split at h
    · cases h
    · rename_i e hvalidate
      split_ifs at h
      · split at h
        · rename_i hproject
          cases h
          exact .inl ⟨p, e, rfl, modelValidate_payload.mp hvalidate, hproject⟩
        · cases h
      · cases h
  · rename_i tenantId
    split_ifs at h
    · split at h
      · rename_i hrebuilt
        cases h
        exact .inr ⟨tenantId, rfl, hrebuilt⟩
      · cases h
    · cases h

theorem Carries.known {p : Inventory.Projection} {e : ResourceProjectionEvent} (h : Carries p e) {py : Python}
    {store : Inventory.Store} (hknown : KnownProjection py store p) : KnownEvent py store e := by
  unfold KnownEvent
  rw [h.tenantId, h.inventoryResourceId, h.azureResourceId]
  exact hknown

/-- Answering a call leaves what was asked. -/
theorem getElem?_answer {calls : List Call} {i j : Nat} {response : Option (Except Refusal Unit)} {c : Call}
    (hi : calls[i]? = some ⟨r, none⟩) (hj : calls[j]? = some c) :
    ∃ c', (calls.set i ⟨r, response⟩)[j]? = some c' ∧ c'.request = c.request := by
  rw [List.getElem?_set]
  split_ifs with heq hlt
  · subst heq
    rw [hi] at hj
    cases hj
    exact ⟨_, rfl, rfl⟩
  · subst heq
    rw [List.getElem?_eq_none (not_lt.mp hlt)] at hi
    cases hi
  · exact ⟨c, hj, rfl⟩

end Serve

section Serve
variable {py : Python} {s : State} {settings : Settings} {inventoryHost : Inventory.Host}
  {host : Relationships.Host} {i : Nat} {r : Request}

theorem inv_refused (h : Inv inventoryHost.py s) (hi : s.calls[i]? = some ⟨r, none⟩) {refusal : Refusal}
    (hresult : handle settings inventoryHost host r s.graph = .error refusal) :
    Inv inventoryHost.py {s with calls := s.calls.set i ⟨r, some (.error refusal)⟩} := by
  have hmem := List.mem_of_getElem? hi
  refine ⟨h.workers, ?_, ?_, ?_, ?_, h.accepted, h.projected⟩
  · intro p response hp
    rcases List.mem_or_eq_of_mem_set hp with hp | heq
    · exact h.known p response hp
    · cases heq
      exact h.known p none hmem
  · intro p hp
    rcases List.mem_or_eq_of_mem_set hp with hp | heq
    · exact h.served p hp
    · cases heq
  · intro r' f hr'
    rcases List.mem_or_eq_of_mem_set hr' with hr' | heq
    · exact h.failures r' f hr'
    · cases heq
      rcases handle_failed hresult with ⟨p, e, rfl, hcarries, hproject⟩ | ⟨tenantId, -, hrebuilt⟩
      · have hevent := hcarries.known (h.known p none hmem)
        have harm : Relationships.OneArmId inventoryHost.py (eventsOf e.tenantId (s.accepted ++ [e])) :=
          oneArmId (List.forall_mem_append.mpr ⟨h.accepted, List.forall_mem_singleton.mpr hevent⟩) e.tenantId
        unfold eventsOf at harm
        rw [List.filter_append, List.filter_singleton, decide_eq_true rfl] at harm
        exact (Relationships.projectAndExtract_spec (h.projected e.tenantId) rfl harm host).of_error hproject
      · exact .inr ((Relationships.rebuildAll_spec (h.projected tenantId).madeBy).of_error hrebuilt).1
  · intro w j hwaiting
    obtain ⟨phase, c, hphase, hc, hnext⟩ := h.waiting w j hwaiting
    obtain ⟨c', hc', hrequest⟩ := getElem?_answer hi hc
    exact ⟨phase, c', hphase, hc', hrequest ▸ hnext⟩

theorem inv_served (h : Inv inventoryHost.py s) (hi : s.calls[i]? = some ⟨r, none⟩)
    {event : Option ResourceProjectionEvent} {graph : Relationships.Store}
    (hresult : handle settings inventoryHost host r s.graph = .ok (event, graph)) :
    Inv inventoryHost.py {s with
      calls := s.calls.set i ⟨r, some (.ok ())⟩
      graph := graph
      accepted := s.accepted ++ event.toList} := by
  have hmem := List.mem_of_getElem? hi
  have hevent : ∀ e ∈ event, ∃ p, r = .resource p ∧ Carries p e := by
    rcases handle_eq_ok hresult with ⟨p, e, -, rfl, rfl, hcarries, -⟩ | ⟨tenantId, -, -, rfl, -⟩
    · intro e' he'
      cases he'
      exact ⟨p, rfl, hcarries⟩
    · intro e he
      cases he
  have haccepted : ∀ e ∈ s.accepted ++ event.toList, KnownEvent inventoryHost.py s.inventory.shared.store e := by
    refine List.forall_mem_append.mpr ⟨h.accepted, fun e he => ?_⟩
    obtain ⟨p, rfl, hcarries⟩ := hevent e (Option.mem_toList.mp he)
    exact hcarries.known (h.known p none hmem)
  have hsub : s.accepted ⊆ s.accepted ++ event.toList := List.subset_append_left _ _
  refine ⟨?_, ?_, ?_, ?_, ?_, haccepted, ?_⟩
  · exact fun w phase hphase => (h.workers w phase hphase).mono (.of_eq rfl) hsub
  · intro p response hp
    rcases List.mem_or_eq_of_mem_set hp with hp | heq
    · exact h.known p response hp
    · cases heq
      exact h.known p none hmem
  · intro p hp
    rcases List.mem_or_eq_of_mem_set hp with hp | heq
    · obtain ⟨e, he, hcarries⟩ := h.served p hp
      exact ⟨e, hsub he, hcarries⟩
    · cases heq
      rcases handle_eq_ok hresult with ⟨p', e, -, heq, rfl, hcarries, -⟩ | ⟨tenantId, -, heq, -⟩
      · cases heq
        exact ⟨e, List.mem_append_right _ (List.mem_singleton_self e), hcarries⟩
      · cases heq
  · intro r' f hr'
    rcases List.mem_or_eq_of_mem_set hr' with hr' | heq
    · exact h.failures r' f hr'
    · cases heq
  · intro w j hwaiting
    obtain ⟨phase, c, hphase, hc, hnext⟩ := h.waiting w j hwaiting
    obtain ⟨c', hc', hrequest⟩ := getElem?_answer hi hc
    exact ⟨phase, c', hphase, hc', hrequest ▸ hnext⟩
  · rcases handle_eq_ok hresult with ⟨p, e, changed, -, rfl, -, hproject⟩ | ⟨tenantId, changed, -, rfl, hrebuilt⟩
    · exact projected_event h.projected (oneArmId haccepted e.tenantId) hproject
    · intro other
      rw [Option.toList_none, List.append_nil]
      by_cases htenant : other = tenantId
      · subst htenant
        exact projected_rebuilt (h.projected other) hrebuilt
      · exact projected_congr (h.projected other)
          ((Relationships.confined_rebuildAll.written _ _ hrebuilt).others htenant)

end Serve

/-! ### The workers -/

section Workers
variable {settings : Settings} {inventoryHost : Inventory.Host} {s : State}

/-- What was stored is to be posted, under the ids of its rows. -/
theorem fits_stored {job : Inventory.SyncJob} {items : List Json.Object} {projections : List Inventory.Projection}
    {store : Inventory.Store} {accepted : List ResourceProjectionEvent}
    (h : List.Forall₂ (Inventory.Delivered inventoryHost job items store) items projections) :
    Fits inventoryHost.py store accepted items (.projecting job projections) := by
  refine .projecting job projections (fun p hp => ?_) fun item hitem => ?_
  · obtain ⟨item, -, id, hid, row, hrow, hkey, -, hprojects⟩ := Table.exists_left h p hp
    obtain ⟨id', hid', harm⟩ := hprojects.azureResourceId
    obtain rfl : id = id' := Option.some.inj (hid.symm.trans hid')
    refine ⟨hprojects.tenantId, row, hrow, hprojects.inventoryResourceId.symm, ?_⟩
    rw [hkey, hprojects.tenantId, harm]
    rfl
  · obtain ⟨p, hp, id, hid, row, -, -, -, hprojects⟩ := Table.exists_right h item hitem
    obtain ⟨id', hid', harm⟩ := hprojects.azureResourceId
    obtain rfl : id = id' := Option.some.inj (hid.symm.trans hid')
    exact ⟨id, hid, .inl ⟨p, hp, by rw [harm]⟩⟩

/-- The worker's call was answered: what it was to post was projected. -/
theorem posted_of_answered (h : Inv inventoryHost.py s) {w : Nat} (hanswered : answered s w)
    {job : Inventory.SyncJob} {p : Inventory.Projection} {rest : List Inventory.Projection}
    (hw : s.inventory.workers[w]? = some (.projecting job (p :: rest))) : ∃ e ∈ s.accepted, Carries p e := by
  unfold answered at hanswered
  split at hanswered
  · rename_i r _ hcall
    obtain ⟨i, hi, hcall⟩ := Option.bind_eq_some_iff.mp hcall
    obtain ⟨phase, c, hphase, hc, hnext⟩ := h.waiting w i hi
    rw [hw] at hphase
    cases hphase
    rw [hcall] at hc
    cases hc
    cases hnext
    exact h.served p (List.mem_of_getElem? hcall)
  · cases hanswered

/-- A worker's own step keeps its place. -/
theorem fits_next (h : Inv inventoryHost.py s) {w : Nat} {a : Inventory.Step}
    (hallowed : allowed s (.worker w a)) {locked : List Uuid} {phase phase' : Inventory.Phase}
    {shared : Inventory.Shared} (hw : s.inventory.workers[w]? = some phase)
    (hnext : Inventory.Next inventoryHost locked s.inventory.shared a phase phase' shared) :
    Fits inventoryHost.py shared.store s.accepted (note (.worker w a) s.listed w) phase' := by
  have hfits := h.workers w phase hw
  cases hnext with
  | query =>
    rw [note, Function.update_self]
    exact .storing _ _
  | store hstore =>
    cases hfits with
    | storing job subscriptions =>
      exact (fits_stored (Inventory.storeItems_delivered hstore)).mono (.of_eq rfl) (List.Subset.refl _)
    | other _ hstoring => exact absurd rfl (hstoring _ _ _)
  | @post job p rest =>
    cases hfits with
    | projecting _ _ known underway =>
      obtain ⟨e, he, hcarries⟩ := posted_of_answered h hallowed hw
      refine .projecting job rest (fun q hq => known q (List.mem_cons_of_mem p hq)) fun item hitem => ?_
      obtain ⟨id, hid, ⟨q, hq, harm⟩ | hprojected⟩ := underway item hitem
      · rcases List.mem_cons.mp hq with rfl | hq
        · refine ⟨id, hid, .inr ⟨e, he, ?_, ?_⟩⟩
          · rw [hcarries.tenantId, (known q (List.mem_cons_self ..)).1]
          · rw [hcarries.azureResourceId, harm]
        · exact ⟨id, hid, .inl ⟨q, hq, harm⟩⟩
      · exact ⟨id, hid, .inr hprojected⟩
    | other _ _ hprojecting => cases hprojecting
  | _ => exact .other _ (fun _ _ _ heq => nomatch heq) rfl

theorem note_other {w v : Nat} (hne : v ≠ w) {a : Inventory.Step} {listed : Nat → List Json.Object} :
    note (.worker w a) listed v = listed v := by
  cases a with
  | query result =>
    cases result with
    | error e => rfl
    | ok resources => exact Function.update_of_ne hne _ _
  | _ => rfl

theorem forget_other {w v : Nat} (hne : v ≠ w) {a : Inventory.Step} {waiting : Nat → Option Nat} :
    forget (.worker w a) waiting v = waiting v := by
  cases a with
  | post fault => exact Function.update_of_ne hne _ _
  | crash => exact Function.update_of_ne hne _ _
  | _ => rfl

/-- A worker that goes on waiting was posting and did nothing. -/
theorem forget_self {w i : Nat} {a : Inventory.Step} {waiting : Nat → Option Nat}
    (h : forget (.worker w a) waiting w = some i) {locked : List Uuid} {phase phase' : Inventory.Phase}
    {shared shared' : Inventory.Shared} (hnext : Inventory.Next inventoryHost locked shared a phase phase' shared') :
    waiting w = some i ∧ nextRequest phase = none := by
  cases hnext with
  | post => simp [forget] at h
  | rebuild => simp [forget] at h
  | postError => simp [forget] at h
  | crash => simp [forget] at h
  | _ => exact ⟨h, rfl⟩

/-- A step of the inventory, by what it does to the workers. -/
theorem inv_workers (h : Inv inventoryHost.py s) {a : Inventory.Action} {inventory : Inventory.State}
    (hkeeps : Keeps s.inventory.shared.store inventory.shared.store)
    (hworkers : ∀ w phase, inventory.workers[w]? = some phase →
      Fits inventoryHost.py inventory.shared.store s.accepted (note a s.listed w) phase)
    (hwaiting : ∀ w i, forget a s.waiting w = some i → s.waiting w = some i ∧
      ∀ phase, s.inventory.workers[w]? = some phase → nextRequest phase ≠ none →
        inventory.workers[w]? = some phase) :
    Inv inventoryHost.py {s with
      inventory := inventory
      waiting := forget a s.waiting
      listed := note a s.listed} where
  workers := hworkers
  known := fun p response hp => (h.known p response hp).mono hkeeps
  served := h.served
  failures := h.failures
  waiting := by
    intro w i hi
    obtain ⟨hbefore, hsame⟩ := hwaiting w i hi
    obtain ⟨phase, c, hphase, hc, hnext⟩ := h.waiting w i hbefore
    refine ⟨phase, c, hsame phase hphase ?_, hc, hnext⟩
    rw [hnext]
    simp
  accepted := fun e he => (h.accepted e he).mono hkeeps
  projected := h.projected

theorem inv_inventory (h : Inv inventoryHost.py s) {a : Inventory.Action} (hallowed : allowed s a)
    {inventory : Inventory.State} (hstep : Inventory.step inventoryHost a s.inventory = some inventory) :
    Inv inventoryHost.py {s with
      inventory := inventory
      waiting := forget a s.waiting
      listed := note a s.listed} := by
  have hkeeps := keeps_step hstep
  cases a with
  | boot =>
    obtain rfl := Option.some.inj hstep
    refine inv_workers h hkeeps (fun w phase hphase => ?_) fun w i hi => ⟨hi, fun phase hphase _ => ?_⟩
    · dsimp only at hphase
      rw [List.getElem?_append] at hphase
      split_ifs at hphase
      · exact h.workers w phase hphase
      · rw [List.getElem?_singleton] at hphase
        split_ifs at hphase
        cases hphase
        exact .other _ (fun _ _ _ heq => nomatch heq) rfl
    · exact List.getElem?_append_left (List.getElem?_eq_some_iff.mp hphase).1 ▸ hphase
  | enqueue id requestedAt r =>
    obtain ⟨store, rfl, -⟩ := Inventory.enqueue_step hstep
    exact inv_workers h hkeeps (fun w phase hphase => (h.workers w phase hphase).mono hkeeps (List.Subset.refl _))
      fun w i hi => ⟨hi, fun phase hphase _ => hphase⟩
  | worker w a =>
    obtain ⟨phase, phase', shared, hw, hnext, rfl⟩ := Inventory.worker_step hstep
    refine inv_workers h hkeeps (fun v phase₁ hphase => ?_) fun v i hi => ?_
    · dsimp only at hphase
      rw [List.getElem?_set] at hphase
      split_ifs at hphase with heq hlt
      · subst heq
        cases hphase
        exact fits_next h hallowed hw hnext
      · rw [note_other (Ne.symm heq)]
        exact (h.workers v phase₁ hphase).mono hkeeps (List.Subset.refl _)
    · by_cases heq : v = w
      · subst heq
        obtain ⟨hbefore, hnone⟩ := forget_self hi hnext
        refine ⟨hbefore, fun phase₁ hphase hsome => ?_⟩
        rw [hw] at hphase
        cases hphase
        exact absurd hnone hsome
      · rw [forget_other heq] at hi
        exact ⟨hi, fun phase₁ hphase _ => (List.getElem?_set_ne (Ne.symm heq)).trans hphase⟩

theorem inv_post (h : Inv inventoryHost.py s) {w : Nat} {phase : Inventory.Phase} {r : Request}
    (hw : s.inventory.workers[w]? = some phase) (hnext : nextRequest phase = some r) :
    Inv inventoryHost.py {s with
      calls := s.calls ++ [⟨r, none⟩]
      waiting := Function.update s.waiting w (some s.calls.length)} := by
  refine ⟨h.workers, ?_, ?_, ?_, ?_, h.accepted, h.projected⟩
  · intro p response hp
    rcases List.mem_append.mp hp with hp | hp
    · exact h.known p response hp
    · cases List.mem_singleton.mp hp
      cases h.workers w phase hw with
      | storing => cases hnext
      | projecting job rest known underway =>
        cases rest with
        | nil => cases hnext
        | cons first rest =>
          cases hnext
          exact (known p (List.mem_cons_self ..)).2
      | other _ _ hprojecting =>
        rw [hprojecting] at hnext
        cases hnext
  · intro p hp
    rcases List.mem_append.mp hp with hp | hp
    · exact h.served p hp
    · cases List.mem_singleton.mp hp
  · intro r' f hr'
    rcases List.mem_append.mp hr' with hr' | hr'
    · exact h.failures r' f hr'
    · cases List.mem_singleton.mp hr'
  · intro v i hi
    dsimp only at hi
    by_cases heq : v = w
    · subst heq
      rw [Function.update_self] at hi
      cases hi
      exact ⟨phase, ⟨r, none⟩, hw, by simp, hnext⟩
    · rw [Function.update_of_ne heq] at hi
      obtain ⟨phase', c, hphase, hc, hnext'⟩ := h.waiting v i hi
      exact ⟨phase', c, hphase, (List.getElem?_append_left (List.getElem?_eq_some_iff.mp hc).1).trans hc, hnext'⟩

theorem inv_step {a : Action} {t : State} (h : Inv inventoryHost.py s)
    (hstep : step settings inventoryHost a s = some t) : Inv inventoryHost.py t := by
  cases a with
  | inventory a =>
    simp only [step] at hstep
    split_ifs at hstep with hallowed
    obtain ⟨inventory, hinventory, rfl⟩ := Option.map_eq_some_iff.mp hstep
    exact inv_inventory h hallowed hinventory
  | post w =>
    simp only [step] at hstep
    split at hstep
    · rename_i r hr hwaiting
      obtain ⟨phase, hw, hnext⟩ := Option.bind_eq_some_iff.mp hr
      cases hstep
      exact inv_post h hw hnext
    · cases hstep
  | serve i host =>
    simp only [step] at hstep
    split at hstep
    · rename_i r hi
      split at hstep
      · rename_i hresult
        cases hstep
        exact inv_refused h hi hresult
      · rename_i hresult
        cases hstep
        exact inv_served h hi hresult
    · cases hstep

end Workers

/-! ### The graph -/

/-- The nodes are resources of the inventory, as last projected; what was projected has its
node; and calls fail on a value a column does not take or an id drawn twice. -/
structure Consistent (py : Python) (s : State) : Prop where
  node : ∀ n ∈ s.graph.nodes,
    Known s.inventory.shared.store n.tenantId n.inventoryResourceId n.normalizedResourceId ∧
      ∃ e, Relationships.latest (eventsOf n.tenantId s.accepted) n.inventoryResourceId = some e ∧
        Relationships.Reflects py e n
  covered : ∀ e ∈ s.accepted, ∃ n ∈ s.graph.nodes, n.tenantId = e.tenantId ∧
    n.inventoryResourceId = e.inventoryResourceId ∧ n.normalizedResourceId = py.lower e.azureResourceId
  failures : ∀ r f, ⟨r, some (.error (.failed f))⟩ ∈ s.calls → f = .refused ∨ f = .primaryKey

/-- If the step rebuilds the tenant, one `references` row joins a supported resource to each
its latest properties name, and no other row leaves it. -/
def Redraws (py : Python) (_ : State) (a : Action) (t : State) : Prop :=
  ∀ i host tenantId, a = .serve i host → t.calls[i]? = some ⟨.rebuild tenantId, some (.ok ())⟩ →
    ∀ x y, Relationships.Supported py (eventsOf tenantId t.accepted) x →
      (Relationships.Refers py (eventsOf tenantId t.accepted) x y →
        (Relationships.activeRows tenantId t.graph x y).map Relationships.Relationship.relationshipType =
          ["references"]) ∧
      (¬ Relationships.Refers py (eventsOf tenantId t.accepted) x y →
        Relationships.activeRows tenantId t.graph x y = [])

/-- If the step ends a job well, each item that was listed for it has its row in the inventory
and its node in the graph, of one id. -/
def Finishes (py : Python) (s : State) (a : Action) (t : State) : Prop :=
  ∀ w job, a = .inventory (.worker w (.post none)) → s.inventory.workers[w]? = some (.projecting job []) →
    ∀ item ∈ s.listed w, ∃ id, item.get "id" = some id ∧
      ∃ n ∈ t.graph.nodes, n.tenantId = job.tenantId ∧ n.normalizedResourceId = py.lower (py.str id) ∧
        Known t.inventory.shared.store job.tenantId n.inventoryResourceId (py.lower (py.str id))

section Graph
variable {py : Python} {settings : Settings} {inventoryHost : Inventory.Host} {s t : State} {a : Action}

theorem consistent_of_inv (h : Inv py s) : Consistent py s where
  node := by
    intro n hn
    obtain ⟨e, he, hreflects⟩ := (h.projected n.tenantId).node n hn rfl
    obtain ⟨hmem, hid⟩ := Relationships.mem_of_latest he
    obtain ⟨hmem, htenant⟩ := List.mem_filter.mp hmem
    have hknown := h.accepted e hmem
    unfold KnownEvent at hknown
    rw [of_decide_eq_true htenant, hid, ← hreflects.normalizedResourceId] at hknown
    exact ⟨hknown, e, he, hreflects⟩
  covered := by
    intro e he
    have hmem : e ∈ eventsOf e.tenantId s.accepted := List.mem_filter.mpr ⟨he, decide_eq_true rfl⟩
    obtain ⟨n, hn, hkey⟩ := List.mem_map.mp ((h.projected e.tenantId).covered e hmem)
    have htenant : n.tenantId = e.tenantId := congrArg Prod.fst hkey
    have hid : n.inventoryResourceId = e.inventoryResourceId := congrArg Prod.snd hkey
    obtain ⟨e', he', hreflects⟩ := (h.projected e.tenantId).node n hn htenant
    obtain ⟨hmem', hid'⟩ := Relationships.mem_of_latest he'
    refine ⟨n, hn, htenant, hid, hreflects.normalizedResourceId.trans ?_⟩
    exact (oneArmId h.accepted e.tenantId e' hmem' e hmem).mp (hid'.trans hid)
  failures := h.failures

theorem redraws_step (h : Inv inventoryHost.py s) (hstep : step settings inventoryHost a s = some t) :
    Redraws inventoryHost.py s a t := by
  intro i host tenantId heq hcall x y hx
  subst heq
  simp only [step] at hstep
  split at hstep
  · rename_i r hi
    have hlt := (List.getElem?_eq_some_iff.mp hi).1
    split at hstep
    · cases hstep
      simp [List.getElem?_set_self hlt] at hcall
    · rename_i event graph hresult
      cases hstep
      simp only [List.getElem?_set_self hlt, Option.some.injEq, Call.mk.injEq, and_true] at hcall
      rcases handle_eq_ok hresult with ⟨p, e, -, heq, -⟩ | ⟨tenantId', changed, heq, rfl, hrebuilt⟩
      · rw [hcall] at heq
        cases heq
      · rw [hcall] at heq
        cases heq
        simp only [Option.toList_none, List.append_nil] at hx ⊢
        have hprojected := h.projected tenantId
        obtain ⟨hrow, hnone⟩ := Relationships.activeRows_of_arrow
          ((Relationships.rebuildAll_spec hprojected.madeBy).of_ok hrebuilt).1 (a := x) (b := y)
        rw [← hprojected.arrow_rebuilt hrebuilt hx]
        exact ⟨hrow, hnone⟩
  · cases hstep

theorem finishes_step (h : Inv inventoryHost.py s) (hstep : step settings inventoryHost a s = some t) :
    Finishes inventoryHost.py s a t := by
  have hafter := consistent_of_inv (inv_step h hstep)
  intro w job heq hw item hitem
  subst heq
  simp only [step] at hstep
  split_ifs at hstep
  obtain ⟨inventory, hinventory, rfl⟩ := Option.map_eq_some_iff.mp hstep
  cases h.workers w _ hw with
  | projecting _ _ known underway =>
    obtain ⟨id, hid, ⟨p, hp, -⟩ | ⟨e, he, htenant, harm⟩⟩ := underway item hitem
    · cases hp
    · obtain ⟨n, hn, hntenant, -, hnarm⟩ := hafter.covered e he
      have hknown := (hafter.node n hn).1
      rw [hntenant, htenant, hnarm, harm] at hknown
      exact ⟨id, hid, n, hn, hntenant.trans htenant, hnarm.trans harm, hknown⟩
  | other _ _ hprojecting => cases hprojecting

end Graph

section Runs
variable (settings : Settings) (inventoryHost : Inventory.Host) (actions : List Action)

/-- **A rebuild draws the references between the resources projected so far**, in every run. -/
theorem rebuilt_graph : EveryStep (step settings inventoryHost) (Redraws inventoryHost.py) actions initial :=
  .of_invariant actions inv_initial (fun _ _ _ h hstep => inv_step h hstep) fun _ _ _ h hstep => redraws_step h hstep

/-- **A job that ends well leaves nothing out**: what Azure listed is in the inventory and in
the graph. -/
theorem finished_job : EveryStep (step settings inventoryHost) (Finishes inventoryHost.py) actions initial :=
  .of_invariant actions inv_initial (fun _ _ _ h hstep => inv_step h hstep) fun _ _ _ h hstep => finishes_step h hstep

end Runs

end Sentinel.Pipeline
