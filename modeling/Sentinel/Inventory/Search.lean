import Sentinel.Inventory.Pagination
import Sentinel.Library.Like

/-! The `search` filter of `list_resources`.

The text of the request goes into an `ILIKE` pattern as it is, so a `%`, a `_` or a
backslash in it is read as a part of the pattern. The search is for a substring exactly
when the trimmed text has none of the three (`search_substring_iff`), or a NUL, which no
row has. -/
namespace Sentinel.Inventory
open Library Common

/-- The query with a search text and no other filter. -/
def searching (search : String) (limit : PageSize) : ResourceQuery where
  subscriptionId := none
  resourceGroup := none
  resourceType := none
  location := none
  state := none
  search := some search
  cursor := none
  limit := limit

/-- The text occurs in the column, up to the case of letters. -/
def Contains (text column : String) : Prop :=
  (Python.ascii.lower text).toList <:+: (Python.ascii.lower column).toList

instance (text column : String) : Decidable (Contains text column) :=
  inferInstanceAs (Decidable ((Python.ascii.lower text).toList <:+: (Python.ascii.lower column).toList))

/-- The row takes part in a search, and so can be stored. -/
structure Searchable (tenantId : Uuid) (r : Resource) : Prop where
  tenant : r.tenantId = tenantId
  name : Json.storableText r.name
  azureResourceId : Json.storableText r.azureResourceId

theorem contains_iff {text column : String} :
    Contains text column ↔ Like.lower text.toList <:+: Like.lower column.toList := by
  simp [Contains, Python.ascii, Like.lower]

section Search
variable {host : Host} {tenantId : Uuid} {search : String} {limit : PageSize} {r : Resource}

theorem admits_searching (hilike : ∀ text pattern, host.ilike text pattern = Like.ilike text.toList pattern.toList)
    (hsearch : search ≠ "") (hr : r.tenantId = tenantId) :
    (searching search limit).admits host tenantId none none r ↔
      Like.ilike r.name.toList ('%' :: (host.py.strip search).toList ++ ['%']) ∨
        Like.ilike r.azureResourceId.toList ('%' :: (host.py.strip search).toList ++ ['%']) := by
  simp [ResourceQuery.admits, searching, asked, hr, hilike, hsearch]

/-- A row whose name and ARM id are one text. -/
def pagedNamed (tenantId : Uuid) (text : String) : Resource :=
  {pagedResource 41 with tenantId := tenantId, name := text, azureResourceId := text}

theorem searchable_pagedNamed {text : String} (h : Json.storableText text) :
    Searchable tenantId (pagedNamed tenantId text) := ⟨rfl, h, h⟩

/-- **Search finds a substring** exactly for the texts without a wildcard or an escape: the
filter admits a row if and only if the trimmed text occurs in its name or in its ARM id. -/
theorem search_substring_iff (host : Host)
    (hilike : ∀ text pattern, host.ilike text pattern = Like.ilike text.toList pattern.toList)
    (tenantId : Uuid) (search : String) (hsearch : search ≠ "") (limit : PageSize) :
    (∀ r, Searchable tenantId r → ((searching search limit).admits host tenantId none none r ↔
      Contains (host.py.strip search) r.name ∨ Contains (host.py.strip search) r.azureResourceId)) ↔
    (∀ c ∈ (host.py.strip search).toList, ¬ Like.Special c) ∨ '\x00' ∈ (host.py.strip search).toList := by
  refine ⟨?_, ?_⟩
  · intro h
    by_contra hspecial
    obtain ⟨hspecial, hnul⟩ := not_or.mp hspecial
    obtain ⟨text, hilikes, hmissing, hchars⟩ := Like.exists_ilike_between hspecial
    have hstorable : Json.storableText (String.ofList text) := by
      simp only [Json.storableText, String.toList_ofList, List.all_eq_true, bne_iff_ne]
      rintro c hc rfl
      rcases hchars _ hc with hc | hc | hc
      · exact hnul ((Like.mem_lower_iff (by decide)).mp hc)
      · cases hc
      · cases hc
    have hrow := h (pagedNamed tenantId (String.ofList text)) (searchable_pagedNamed hstorable)
    rw [admits_searching hilike hsearch (searchable_pagedNamed hstorable).tenant, contains_iff, contains_iff] at hrow
    simp only [pagedNamed, String.toList_ofList, or_self] at hrow
    exact hmissing (hrow.mp hilikes)
  · intro hplain r hr
    rw [admits_searching hilike hsearch hr.tenant, contains_iff, contains_iff]
    rcases hplain with hplain | hnul
    · rw [Like.ilike_between hplain, Like.ilike_between hplain]
    · -- No row has the character.
      have hnone : ∀ {text : String}, Json.storableText text → '\x00' ∉ text.toList := by
        intro text htext hmem
        simpa using List.all_eq_true.mp htext _ hmem
      have hilikes : ∀ {text : String}, Json.storableText text →
          ¬ Like.ilike text.toList ('%' :: (host.py.strip search).toList ++ ['%']) := fun htext h =>
        hnone htext (Like.mem_of_ilike h (by simp [hnul]) (by decide) (by decide))
      have hcontains : ∀ {text : String}, Json.storableText text →
          ¬ Like.lower (host.py.strip search).toList <:+: Like.lower text.toList := fun htext h =>
        hnone htext ((Like.mem_lower_iff (by decide)).mp (h.subset ((Like.mem_lower_iff (by decide)).mpr hnul)))
      exact iff_of_false (not_or.mpr ⟨hilikes hr.name, hilikes hr.azureResourceId⟩)
        (not_or.mpr ⟨hcontains hr.name, hcontains hr.azureResourceId⟩)

end Search

/-- The sample host with the `ILIKE` of PostgreSQL. -/
def searchedHost : Host := {sampleHost with ilike := fun text pattern => Like.ilike text.toList pattern.toList}

theorem search_substring_iff_named :
    (searching " VM-1" ⟨50, by decide⟩).admits searchedHost 1 none none (pagedNamed 1 "web-vm-1") ∧
      ¬ (searching " VM-1" ⟨50, by decide⟩).admits searchedHost 1 none none (pagedNamed 1 "web-vm-2") := by
  have hstrip : searchedHost.py.strip " VM-1" = "VM-1" := by decide +kernel
  have h := search_substring_iff searchedHost (fun _ _ => rfl) 1 " VM-1" (by decide) ⟨50, by decide⟩
  rw [hstrip] at h
  have hrows := h.mpr (.inl (by simp [Like.Special]))
  refine ⟨(hrows _ (searchable_pagedNamed (by decide))).mpr ?_, mt (hrows _ (searchable_pagedNamed (by decide))).mp ?_⟩
  · exact .inl (by decide +kernel)
  · decide +kernel

/-- The search for `vm_1` finds `vmx1`. -/
theorem wildcard_searched : ¬ ∀ r, Searchable 1 r →
    ((searching "vm_1" ⟨50, by decide⟩).admits searchedHost 1 none none r ↔
      Contains (searchedHost.py.strip "vm_1") r.name ∨ Contains (searchedHost.py.strip "vm_1") r.azureResourceId) := by
  intro h
  have hrow := h (pagedNamed 1 "vmx1") (searchable_pagedNamed (by decide))
  exact absurd (hrow.mp (by decide +kernel)) (by decide +kernel)

end Sentinel.Inventory
