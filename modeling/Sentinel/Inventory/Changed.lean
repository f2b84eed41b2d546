import Sentinel.Inventory.Batch

/-! What a sync counts as changed.

A call compares what it derived from its item with the object it met. Among the values
compared is the time of the observation, so an item that says nothing new counts all the
same, unless the clock has stood still (`resources_changed_iff`, `counted_again`). -/
namespace Sentinel.Inventory
open Library Common

section Meetings
variable (host : Host) (session : Session) (tenantId : Uuid)

/-- The object a call meets, if the resource is known. -/
def Batch.meets (call : Call) (b : Batch) : Option Resource :=
  (findResource session tenantId (call.values host).normalizedResourceId b.store).map b.object

/-- The calls of a session, each with the object it meets. -/
def meetings : List Call → Batch → List (Call × Option Resource)
  | [], _ => []
  | call :: rest, b => (call, b.meets host session tenantId call) ::
    match b.upsert host session tenantId call with
    | .ok (_, _, b) => meetings rest b
    | .error _ => []

/-- The object differs in content from what an item says. -/
def contentDiffers (v : ItemValues) (r : Resource) : Bool :=
  r.azureResourceId ≠ v.azureResourceId || r.resourceType ≠ v.resourceType || r.name ≠ v.name ||
  r.resourceGroup ≠ v.resourceGroup || nullableText v.location ≠ some r.location ||
  nullableText v.kind ≠ some r.kind || r.sku ≠ v.sku || !Python.eq r.tags v.tags ||
  !Python.eq r.properties v.properties || r.state ≠ .active

/-- The item is new, or the object it meets differs in content. -/
def isChange (m : Call × Option Resource) : Bool := m.2.all (contentDiffers (m.1.values host))

/-- If an item meets its content, it does so at the time of the last observation, and the
resource is not missing. -/
def StandsStill (m : Call × Option Resource) : Prop :=
  ∀ r, m.2 = some r → contentDiffers (m.1.values host) r = false →
    r.lastSeenAt = (m.1.values host).lastSeenAt ∧ r.missingSince = none

end Meetings

section Counted
variable {host : Host} {session : Session} {tenantId : Uuid} {call : Call} {calls : List Call} {b b' : Batch}
  {r : Resource} {changed : Bool}

theorem differs_eq {v : ItemValues} (hkey : r.normalizedResourceId = v.normalizedResourceId) :
    differs v r = (contentDiffers v r || (r.lastSeenAt ≠ v.lastSeenAt || r.missingSince ≠ none)) := by
  unfold differs contentDiffers
  simp only [hkey, ne_eq, not_true_eq_false, decide_false, Bool.or_false]
  ac_rfl

/-- A call reports whether it met something that differs in any value. -/
theorem Upserts.reports (h : Upserts host session tenantId call b r changed b') :
    changed = (b.meets host session tenantId call).all (differs (call.values host)) := by
  unfold Batch.meets
  cases h with
  | inserted _ _ hfind =>
    rw [hfind]
    rfl
  | updated _ _ hfind =>
    rw [hfind]
    rfl

/-- What the worker counts. -/
theorem count_of_run {n : Nat} (h : b.run host session tenantId calls = .ok (n, b')) :
    n = (meetings host session tenantId calls b).countP fun m => m.2.all (differs (m.1.values host)) := by
  induction calls generalizing b n with
  | nil =>
    cases h
    rfl
  | cons call rest ih =>
    obtain ⟨r, changed, t, count, hupsert, hrest, rfl⟩ := run_cons_eq_ok.mp h
    rw [meetings, hupsert, List.countP_cons, ih hrest, (upserts_of_upsert hupsert).reports, Nat.add_comm]

/-- A call meets the object of its id. -/
theorem meets_key (hb : b.Sound) (h : b.meets host session tenantId call = some r) :
    r.normalizedResourceId = (call.values host).normalizedResourceId := by
  obtain ⟨row, hfind, rfl⟩ := Option.map_eq_some_iff.mp h
  obtain ⟨hrow, hkey⟩ := findResource_some hfind
  exact congrArg Prod.snd ((hb.object hrow).key.trans hkey)

theorem meetings_key (hb : b.Sound) :
    ∀ m ∈ meetings host session tenantId calls b, ∀ r, m.2 = some r →
      r.normalizedResourceId = (m.1.values host).normalizedResourceId := by
  induction calls generalizing b with
  | nil => exact fun m hm => nomatch hm
  | cons call rest ih =>
    intro m hm r hr
    rw [meetings] at hm
    cases List.mem_cons.mp hm with
    | inl hfirst =>
      subst hfirst
      exact meets_key hb hr
    | inr hlater =>
      cases hupsert : b.upsert host session tenantId call with
      | error f =>
        rw [hupsert] at hlater
        cases hlater
      | ok p =>
        obtain ⟨q, changed, t⟩ := p
        rw [hupsert] at hlater
        exact ih ((upserts_of_upsert hupsert).sound hb) m hlater r hr

/-- Two counts agree where one property implies the other exactly if the two never differ. -/
theorem countP_eq_iff {α : Type} {p q : α → Bool} {l : List α} (h : ∀ x ∈ l, p x → q x) :
    l.countP q = l.countP p ↔ ∀ x ∈ l, q x → p x := by
  refine ⟨?_, ?_⟩
  · intro heq x hx hq
    have hsplit := List.countP_eq_countP_filter_add l q p
    have hboth : (l.filter p).countP q = l.countP p := by
      rw [List.countP_filter]
      apply List.countP_congr
      intro y hy
      simpa using h y hy
    have hnone : (l.filter fun x => !p x).countP q = 0 := by omega
    by_contra hp
    apply List.countP_eq_zero.mp hnone x _ hq
    exact List.mem_filter.mpr ⟨hx, by simpa using hp⟩
  · intro hall
    apply List.countP_congr
    exact fun x hx => ⟨hall x hx, h x hx⟩

/-- An item counts exactly as its content says, if it stands still. -/
theorem standsStill_iff {m : Call × Option Resource}
    (hkey : ∀ r, m.2 = some r → r.normalizedResourceId = (m.1.values host).normalizedResourceId) :
    (m.2.all (differs (m.1.values host)) → isChange host m) ↔ StandsStill host m := by
  unfold isChange StandsStill
  cases hr : m.2 with
  | none => simp
  | some r =>
    simp only [Option.all_some, differs_eq (hkey r hr), Option.some.injEq, forall_eq']
    cases contentDiffers (m.1.values host) r with
    | true => simp
    | false => simp

end Counted

/-- **What a sync counts are the changes** exactly if every item that meets its own content
does so at the time of the last observation, of a resource that is not missing. -/
theorem resources_changed_iff (host : Host) (session : Session) (tenantId : Uuid) (calls : List Call) {s s' : Store}
    {n : Nat} (h : upsertAll host session tenantId calls s = .ok (n, s')) :
    n = (meetings host session tenantId calls (.start s)).countP (isChange host) ↔
      ∀ m ∈ meetings host session tenantId calls (.start s), StandsStill host m := by
  obtain ⟨b, hrun, -⟩ := upsertAll_eq_ok.mp h
  have hkeys := @meetings_key host session tenantId calls (.start s) (sound_start s)
  rw [count_of_run hrun, countP_eq_iff]
  · refine ⟨?_, ?_⟩
    · intro hall m hm
      exact (standsStill_iff (hkeys m hm)).mp (hall m hm)
    · intro hall m hm
      exact (standsStill_iff (hkeys m hm)).mpr (hall m hm)
  · intro m hm hchange
    unfold isChange at hchange
    cases hr : m.2 with
    | none => rfl
    | some r =>
      rw [hr] at hchange
      simp only [Option.all_some] at hchange ⊢
      rw [differs_eq (hkeys m hm r hr), hchange, Bool.true_or]

/-! ### The same machine, again -/

def vmCall (n : Nat) (now : Instant) : Call := armCall n now (armItem "/subscriptions/3/vm" (.obj []) Json.wellFormed_empty)

/-- A sync that finds one machine as it was and the other for the first time. -/
def secondSync : List Call :=
  [vmCall 1 3, armCall 2 3 (armItem "/subscriptions/3/vm2" (.obj []) Json.wellFormed_empty)]

theorem resources_changed_iff_second : ∃ s n s', s.resources ≠ [] ∧
    upsertAll sampleHost ⟨true, none⟩ 1 [vmCall 0 2] .empty = .ok (1, s) ∧
    upsertAll sampleHost ⟨true, none⟩ 1 secondSync s = .ok (n, s') ∧
    (n = (meetings sampleHost ⟨true, none⟩ 1 secondSync (.start s)).countP (isChange sampleHost) ↔
      ∀ m ∈ meetings sampleHost ⟨true, none⟩ 1 secondSync (.start s), StandsStill sampleHost m) := by
  have hsome : (upsertAll sampleHost ⟨true, none⟩ 1 [vmCall 0 2] .empty).toOption.any (fun p => p.1 = 1 &&
      !p.2.resources.isEmpty && (upsertAll sampleHost ⟨true, none⟩ 1 secondSync p.2).toOption.isSome) = true := by
    decide +kernel
  obtain ⟨⟨m, s⟩, hfirst, hrest⟩ := (Option.any_eq_true _ _).mp hsome
  simp only [Bool.and_eq_true, decide_eq_true_eq] at hrest
  obtain ⟨⟨rfl, hrows⟩, hsecond⟩ := hrest
  obtain ⟨⟨n, s'⟩, hrun⟩ := Option.isSome_iff_exists.mp hsecond
  replace hrun := Fallible.toOption_eq_some.mp hrun
  exact ⟨s, n, s', by simpa using hrows, Fallible.toOption_eq_some.mp hfirst, hrun,
    resources_changed_iff sampleHost ⟨true, none⟩ 1 secondSync hrun⟩

/-- A second sync finds the machine as it was and counts it as changed. -/
theorem counted_again : ((upsertAll sampleHost ⟨true, none⟩ 1 [vmCall 0 2] .empty).toOption.bind fun p =>
    (upsertAll sampleHost ⟨true, none⟩ 1 [vmCall 1 3] p.2).toOption.map fun q =>
      (q.1, (meetings sampleHost ⟨true, none⟩ 1 [vmCall 1 3] (.start p.2)).countP (isChange sampleHost))) =
    some (1, 0) := by decide +kernel

end Sentinel.Inventory
