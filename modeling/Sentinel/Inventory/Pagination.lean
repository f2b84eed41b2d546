import Sentinel.Inventory.Main
import Sentinel.Library.Base64
import Sentinel.Library.Keyset

/-! Following `next_cursor` through the resources.

A request shows a page of the rows that pass its filters in the snapshot it sees
(`listResources_eq`), the cursor being the id of the last row in base64. So a client that
follows the cursors pages through them by id, whatever is inserted and updated meanwhile. -/
namespace Sentinel.Inventory
open Library Common

/-- `base64.urlsafe_b64encode(str(id).encode()).decode()`, and back. -/
structure CursorCodec (host : Host) : Prop where
  decode : ∀ id, host.decodeCursor (host.encodeCursor id) = some id
  nonempty : ∀ id, host.encodeCursor id ≠ ""

section Pagination
variable (host : Host) (bypass : Bool) (tenantId : Uuid) (q : ResourceQuery)

/-- The row passes the filters; a filter for a state that does not exist lets none pass. -/
def ResourceQuery.Matches (r : Resource) : Prop :=
  ∃ state, readFilter ResourceState.ofName q.state = .ok state ∧ q.admits host tenantId state none r

/-- `GET /inventory/resources`. -/
def listPage (cursor : Option String) (s : Store) : Except Failure (List Resource × Option String) :=
  listResources host (unitOfWork bypass tenantId) tenantId {q with cursor := cursor} s

/-- The responses of requests from the `i`-th on, each with the cursor of the one before,
until a response has none. -/
inductive Following (snapshots : Nat → Store) : Nat → Option String → List (List Resource × Option String) → Prop
  | last {i : Nat} {cursor : Option String} {rows : List Resource} :
    listPage host bypass tenantId q cursor (snapshots i) = .ok (rows, none) →
    Following snapshots i cursor [(rows, none)]
  | more {i : Nat} {cursor : Option String} {rows : List Resource} {next : String}
      {responses : List (List Resource × Option String)} :
    listPage host bypass tenantId q cursor (snapshots i) = .ok (rows, some next) →
    Following snapshots (i + 1) (some next) responses → Following snapshots i cursor ((rows, some next) :: responses)

variable {host bypass tenantId q}

/-- The rows of a snapshot that pass the filters. -/
def matching (host : Host) (tenantId : Uuid) (q : ResourceQuery) (state : Option ResourceState) (s : Store) :
    List Resource :=
  s.resources.filter (q.admits host tenantId state none)

/-- How the id of a page becomes its cursor. -/
def response (host : Host) (page : List Resource × Option Uuid) : List Resource × Option String :=
  (page.1, page.2.map host.encodeCursor)

theorem unique_matching {state : Option ResourceState} (s : Store) :
    Table.Unique Resource.id (matching host tenantId q state s) :=
  List.Nodup.sublist (List.filter_sublist.map _) s.resourceIds

/-- What a request shows is a page of the rows after its cursor. -/
theorem listResources_eq {cursor : Option String} {state : Option ResourceState} {after : Option Uuid}
    (hstate : readFilter ResourceState.ofName q.state = .ok state)
    (hcursor : readFilter host.decodeCursor cursor = .ok after) (s : Store) :
    listPage host bypass tenantId q cursor s = .ok (response host (Keyset.page Resource.id q.limit.val
      (Keyset.after Resource.id after (matching host tenantId q state s)))) := by
  have hrows : (s.resources.filter fun r => (unitOfWork bypass tenantId).sees r &&
        ({q with cursor := cursor} : ResourceQuery).admits host tenantId state after r) =
      Keyset.after Resource.id after (matching host tenantId q state s) := by
    unfold Keyset.after matching
    rw [List.filter_filter]
    apply List.filter_congr
    intro r _
    have hadmits : ({q with cursor := cursor} : ResourceQuery).admits host tenantId state after r =
        (q.admits host tenantId state none r && after.all (· < r.id)) := by
      simp [ResourceQuery.admits]
    have hsees : q.admits host tenantId state none r → (unitOfWork bypass tenantId).sees r := by
      intro h
      simp [unitOfWork, Session.sees, tenantId_of_admits h]
    rw [hadmits]
    cases hpass : q.admits host tenantId state none r with
    | false => simp
    | true =>
      rw [hsees hpass, Bool.and_true]
      rfl
  unfold listPage listResources
  simp only [hstate, hcursor]
  show (if _ then _ else _) = _
  rw [hrows]
  unfold Keyset.page response
  by_cases hmore : q.limit.val < ((Query.orderBy (fun a b : Resource => a.id ≤ b.id)
      (Keyset.after Resource.id after (matching host tenantId q state s))).take (q.limit.val + 1)).length
  · rw [if_pos hmore, if_pos hmore, Option.map_map]
    rfl
  · rw [if_neg hmore, if_neg hmore]
    rfl

theorem readFilter_cursor (hcodec : CursorCodec host) (after : Option Uuid) :
    readFilter host.decodeCursor (after.map host.encodeCursor) = .ok after := by
  cases after with
  | none => rfl
  | some id => simp [readFilter, hcodec.nonempty, hcodec.decode]

theorem readable_of_listPage {cursor : Option String} {s : Store} {r : List Resource × Option String}
    (h : listPage host bypass tenantId q cursor s = .ok r) :
    ∃ state, readFilter ResourceState.ofName q.state = .ok state := by
  unfold listPage listResources at h
  cases hstate : readFilter ResourceState.ofName q.state with
  | ok state => exact ⟨state, rfl⟩
  | error f =>
    simp only [hstate] at h
    cases h

/-! ### The responses are pages -/

section Snapshots
variable {snapshots : Nat → Store} {i : Nat} {after : Option Uuid} {state : Option ResourceState}

theorem following_of_pages (hcodec : CursorCodec host) (hstate : readFilter ResourceState.ofName q.state = .ok state)
    {pages : List (List Resource × Option Uuid)}
    (h : Keyset.Pages Resource.id q.limit.val (fun i => matching host tenantId q state (snapshots i)) i after pages) :
    Following host bypass tenantId q snapshots i (after.map host.encodeCursor) (pages.map (response host)) := by
  induction h with
  | last hpage =>
    apply Following.last
    rw [listResources_eq hstate (readFilter_cursor hcodec _), hpage]
    rfl
  | more hpage _ ih =>
    apply Following.more _ ih
    rw [listResources_eq hstate (readFilter_cursor hcodec _), hpage]
    rfl

theorem pages_of_following (hcodec : CursorCodec host) (hstate : readFilter ResourceState.ofName q.state = .ok state)
    {cursor : Option String} {responses : List (List Resource × Option String)}
    (h : Following host bypass tenantId q snapshots i cursor responses) (hcursor : cursor = after.map host.encodeCursor) :
    ∃ pages, Keyset.Pages Resource.id q.limit.val (fun i => matching host tenantId q state (snapshots i)) i after pages ∧
      responses = pages.map (response host) := by
  induction h generalizing after with
  | @last i cursor rows hlist =>
    rw [hcursor, listResources_eq hstate (readFilter_cursor hcodec _)] at hlist
    cases hpage : Keyset.page Resource.id q.limit.val
        (Keyset.after Resource.id after (matching host tenantId q state (snapshots i))) with
    | mk found next =>
      rw [hpage] at hlist
      cases next with
      | some id => cases hlist
      | none =>
        cases hlist
        exact ⟨_, .last hpage, rfl⟩
  | @more i cursor rows next responses hlist _ ih =>
    rw [hcursor, listResources_eq hstate (readFilter_cursor hcodec _)] at hlist
    cases hpage : Keyset.page Resource.id q.limit.val
        (Keyset.after Resource.id after (matching host tenantId q state (snapshots i))) with
    | mk found next =>
      rw [hpage] at hlist
      cases next with
      | none => cases hlist
      | some id =>
        cases hlist
        obtain ⟨pages, hpages, rfl⟩ := @ih (some id) rfl
        exact ⟨_, .more hpage hpages, rfl⟩

theorem rows_responses (pages : List (List Resource × Option Uuid)) :
    (pages.map (response host)).flatMap Prod.fst = pages.flatMap Prod.fst := by
  rw [List.flatMap_map]
  rfl

theorem mem_matching (hstate : readFilter ResourceState.ofName q.state = .ok state) {s : Store} {r : Resource} :
    r ∈ matching host tenantId q state s ↔ r ∈ s.resources ∧ q.Matches host tenantId r := by
  rw [matching, List.mem_filter]
  apply and_congr_right
  intro _
  refine ⟨?_, ?_⟩
  · intro hadmits
    exact ⟨state, hstate, hadmits⟩
  · intro hmatches
    obtain ⟨state', hstate', hadmits⟩ := hmatches
    cases hstate.symm.trans hstate'
    exact hadmits

end Snapshots

/-- **Following the cursors pages through the resources.** If the filter for the state can be
read, the requests come to an end. Their rows have increasing ids, so none comes twice, and
a resource that is there and passes the filters all the time comes once. Each response has
at most `limit` rows, all of its snapshot and passing the filters; its cursor, if any, is
that of its last row and is accepted; and without one, no row of its snapshot that passes
the filters has an id beyond those shown. -/
theorem resource_pagination (host : Host) (hcodec : CursorCodec host) (bypass : Bool) (tenantId : Uuid)
    (q : ResourceQuery) (snapshots : Nat → Store) :
    (∀ state, readFilter ResourceState.ofName q.state = .ok state →
      ∃ responses, Following host bypass tenantId q snapshots 0 none responses) ∧
    ∀ responses, Following host bypass tenantId q snapshots 0 none responses →
      ((responses.flatMap Prod.fst).map Resource.id).Pairwise (· < ·) ∧
      (∀ id, (∀ j < responses.length, ∃ r ∈ (snapshots j).resources, r.id = id ∧ q.Matches host tenantId r) →
        id ∈ (responses.flatMap Prod.fst).map Resource.id) ∧
      ∀ j rows next, responses[j]? = some (rows, next) →
        rows.length ≤ q.limit.val ∧
        (∀ r ∈ rows, r ∈ (snapshots j).resources ∧ q.Matches host tenantId r) ∧
        (∀ cursor, next = some cursor → ∃ r, rows.getLast? = some r ∧ host.decodeCursor cursor = some r.id ∧
          ∀ s, ∃ response, listPage host bypass tenantId q (some cursor) s = .ok response) ∧
        (next = none → ∀ r ∈ (snapshots j).resources, q.Matches host tenantId r →
          ∃ p ∈ responses.flatMap Prod.fst, r.id ≤ p.id) := by
  have hlimit : 1 ≤ q.limit.val := q.limit.property.1
  refine ⟨?_, ?_⟩
  · intro state hstate
    obtain ⟨pages, hpages⟩ := Keyset.exists_pages hlimit (fun i => unique_matching (snapshots i)) 0 none
    exact ⟨_, following_of_pages hcodec hstate hpages⟩
  · intro responses h
    obtain ⟨state, hstate⟩ : ∃ state, readFilter ResourceState.ofName q.state = .ok state := by
      cases h with
      | last hlist => exact readable_of_listPage hlist
      | more hlist _ => exact readable_of_listPage hlist
    obtain ⟨pages, hpages, rfl⟩ := @pages_of_following host bypass tenantId q snapshots 0 none state hcodec hstate
      none responses h rfl
    have hunique : ∀ i, Table.Unique Resource.id (matching host tenantId q state (snapshots i)) :=
      fun i => unique_matching (snapshots i)
    rw [rows_responses]
    refine ⟨(hpages.sorted hlimit hunique).1, ?_, ?_⟩
    · intro id hid
      apply hpages.complete hlimit hunique
      · exact fun k hk => nomatch hk
      · intro j hj
        obtain ⟨r, hr, rfl, hmatches⟩ := hid j (by simpa using hj)
        rw [Nat.zero_add]
        exact List.mem_map_of_mem ((mem_matching hstate).mpr ⟨hr, hmatches⟩)
    · intro j rows next hj
      rw [List.getElem?_map, Option.map_eq_some_iff] at hj
      obtain ⟨⟨found, k⟩, hfound, heq⟩ := hj
      cases heq
      obtain ⟨hlength, hmem, hlast, hrest⟩ := hpages.page hlimit hunique hfound
      rw [Nat.zero_add] at hmem hrest
      refine ⟨hlength, fun r hr => (mem_matching hstate).mp (hmem r hr), ?_, ?_⟩
      · intro cursor hcursor
        obtain ⟨id, hid, rfl⟩ := Option.map_eq_some_iff.mp hcursor
        obtain ⟨r, hr, rfl⟩ := hlast id hid
        refine ⟨r, hr, hcodec.decode r.id, ?_⟩
        intro s
        exact ⟨_, listResources_eq hstate (readFilter_cursor hcodec (some r.id)) s⟩
      · intro hnone r hr hmatches
        have hk : k = none := Option.map_eq_none_iff.mp hnone
        cases hrest hk r ((mem_matching hstate).mpr ⟨hr, hmatches⟩) with
        | inl hcursor =>
          obtain ⟨_, hcursor, _⟩ := hcursor
          cases hcursor
        | inr hfound => exact hfound

end Pagination

/-! ### Cursors as the service writes them -/

def encodeCursor (id : Uuid) : String := String.ofList (Base64.encode (id.str.toList.map Char.toNat))

def decodeCursor (cursor : String) : Option Uuid :=
  (Base64.decode cursor.toList).bind fun bytes => Uuid.ofStr (String.ofList (bytes.map Char.ofNat))

theorem decodeCursor_encodeCursor (id : Uuid) : decodeCursor (encodeCursor id) = some id := by
  have hbytes : ∀ b ∈ id.str.toList.map Char.toNat, b < 256 := by
    intro b hb
    obtain ⟨c, hc, rfl⟩ := List.mem_map.mp hb
    have hascii : c.toNat < 128 := Uuid.ascii_of_mem_str hc
    omega
  have hchars : (id.str.toList.map Char.toNat).map Char.ofNat = id.str.toList := by
    rw [List.map_map]
    apply List.map_id''
    exact Char.ofNat_toNat
  unfold decodeCursor encodeCursor
  rw [String.toList_ofList, Base64.decode_encode hbytes, Option.bind_some, hchars, String.ofList_toList]
  exact Uuid.ofStr_str id

theorem encodeCursor_ne_empty (id : Uuid) : encodeCursor id ≠ "" := by
  intro h
  have hdecode := decodeCursor_encodeCursor id
  rw [h] at hdecode
  have hempty : decodeCursor "" = none := by decide +kernel
  rw [hempty] at hdecode
  cases hdecode

theorem cursorCodec {host : Host} (hencode : host.encodeCursor = encodeCursor)
    (hdecode : host.decodeCursor = decodeCursor) : CursorCodec host := by
  constructor
  · intro id
    rw [hencode, hdecode]
    exact decodeCursor_encodeCursor id
  · intro id
    rw [hencode]
    exact encodeCursor_ne_empty id

def pagedHost : Host := {sampleHost with encodeCursor := encodeCursor, decodeCursor := decodeCursor}

def pagedResource (id : Uuid) : Resource where
  id := id
  tenantId := 1
  subscriptionId := 30
  azureResourceId := id.str
  normalizedResourceId := id.str
  resourceType := "compute"
  name := "vm"
  resourceGroup := "prod"
  location := none
  kind := none
  sku := none
  tags := .obj []
  properties := .obj []
  provisioningState := none
  state := .active
  firstSeenAt := 1
  lastSeenAt := 2
  missingSince := none
  version := 1

/-- Three resources, not in the order of their ids. -/
def pagedStore : Store :=
  {Store.empty with
    resources := [41, 40, 42].map pagedResource
    resourceIds := by
      unfold Table.Unique
      decide +kernel
    resourceKeys := by
      unfold Table.Unique
      decide +kernel}

def pagedQuery : ResourceQuery where
  subscriptionId := some 30
  resourceGroup := some "PROD"
  resourceType := none
  location := some ""
  state := none
  search := none
  cursor := none
  limit := ⟨2, by decide⟩

/-- The three come in two pages. -/
theorem resource_pagination_paged :
    (∃ responses, Following pagedHost false 1 pagedQuery (fun _ => pagedStore) 0 none responses ∧
      ((responses.flatMap Prod.fst).map Resource.id).Pairwise (· < ·) ∧
      ∀ id ∈ [(40 : Uuid), 41, 42], id ∈ (responses.flatMap Prod.fst).map Resource.id) ∧
    (listPage pagedHost false 1 pagedQuery none pagedStore).toOption.map (fun r => (r.1.map Resource.id, r.2)) =
      some ([40, 41], some (encodeCursor 41)) := by
  have h := resource_pagination pagedHost (cursorCodec rfl rfl) false 1 pagedQuery fun _ => pagedStore
  have hadmits : ([40, 41, 42].all fun id => pagedQuery.admits pagedHost 1 none none (pagedResource id)) = true := by
    decide +kernel
  obtain ⟨responses, hfollowing⟩ := h.1 none rfl
  obtain ⟨hsorted, hcomplete, -⟩ := h.2 responses hfollowing
  refine ⟨⟨responses, hfollowing, hsorted, ?_⟩, by decide +kernel⟩
  intro id hid
  have hid' : id ∈ [(41 : Uuid), 40, 42] := by simpa [or_left_comm] using hid
  have hr : pagedResource id ∈ pagedStore.resources := List.mem_map_of_mem hid'
  exact hcomplete id fun _ _ => ⟨_, hr, rfl, none, rfl, List.all_eq_true.mp hadmits id hid⟩

end Sentinel.Inventory
