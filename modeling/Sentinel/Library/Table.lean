import Mathlib

/-! Rows under a unique key: what inserting a row and rewriting rows in place do to it. -/
namespace Sentinel.Library.Table

variable {ρ κ : Type*} (key : ρ → κ)

/-- The key is unique. -/
def Unique (rows : List ρ) : Prop := (rows.map key).Nodup

variable {key}

theorem unique_nil : Unique key ([] : List ρ) := List.nodup_nil

/-- A row with a new key may be added. -/
theorem unique_snoc {rows : List ρ} {r : ρ} :
    Unique key (rows ++ [r]) ↔ key r ∉ rows.map key ∧ Unique key rows := by
  rw [Unique, List.map_append, List.map_singleton, ← List.concat_eq_append, List.nodup_concat]
  rfl

theorem Unique.snoc {rows : List ρ} {r : ρ} (h : Unique key rows) (hnew : ∀ q ∈ rows, key q ≠ key r) :
    Unique key (rows ++ [r]) := by
  apply unique_snoc.mpr ⟨?_, h⟩
  intro hmem
  obtain ⟨q, hq, heq⟩ := List.mem_map.mp hmem
  exact hnew q hq heq

/-- Rewriting rows in place, their keys kept. -/
theorem map_rewrite {rows : List ρ} {f : ρ → ρ} (hf : ∀ r, key (f r) = key r) :
    (rows.map f).map key = rows.map key := by
  rw [List.map_map]
  exact List.map_congr_left fun r _ => hf r

theorem Unique.rewrite {rows : List ρ} (h : Unique key rows) {f : ρ → ρ}
    (hf : ∀ r, key (f r) = key r) : Unique key (rows.map f) := by
  rw [Unique, map_rewrite hf]
  exact h

/-- Two rows with one key are one row. -/
theorem Unique.eq {rows : List ρ} (h : Unique key rows) {r q : ρ} (hr : r ∈ rows) (hq : q ∈ rows)
    (hkey : key r = key q) : r = q :=
  List.inj_on_of_nodup_map h hr hq hkey

/-- Looking a row up by its key finds it. -/
theorem Unique.find? [DecidableEq κ] {rows : List ρ} (h : Unique key rows) {r : ρ} (hr : r ∈ rows) {k : κ}
    (hkey : key r = k) : rows.find? (fun q => key q = k) = some r := by
  cases hfind : rows.find? fun q => key q = k with
  | none => simpa [hkey] using List.find?_eq_none.mp hfind r hr
  | some q =>
    have hq : key q = k := by simpa using List.find?_some hfind
    rw [h.eq (List.mem_of_find?_eq_some hfind) hr (hq.trans hkey.symm)]

/-- Rows that differ in something differ in the key. -/
theorem Unique.ne {rows : List ρ} (h : Unique key rows) {r q : ρ} (hr : r ∈ rows) (hq : q ∈ rows) {μ : Type*}
    {f : ρ → μ} (hne : f r ≠ f q) : key r ≠ key q :=
  fun heq => hne (congrArg f (h.eq hr hq heq))

/-- Rows with one key are one row. -/
theorem Unique.length_le_one {rows : List ρ} (h : Unique key rows) (hsame : ∀ r ∈ rows, ∀ q ∈ rows, key r = key q) :
    rows.length ≤ 1 := by
  rcases rows with _ | ⟨r, _ | ⟨q, rest⟩⟩
  · exact Nat.zero_le 1
  · exact Nat.le_refl 1
  · have heq := hsame r (List.mem_cons_self ..) q (List.mem_cons_of_mem _ (List.mem_cons_self ..))
    exact absurd (List.mem_cons.mpr (.inl heq)) (List.nodup_cons.mp h).1

/-- What determines the key is unique too. -/
theorem Unique.finer {μ : Type*} {name : ρ → μ} {rows : List ρ} (h : Unique key rows)
    (hkey : ∀ r q, name r = name q → key r = key q) : Unique name rows :=
  List.Nodup.map_on (fun _ hr _ hq heq => h.eq hr hq (hkey _ _ heq)) (List.Nodup.of_map key h)

/-- Rewriting that leaves the rows outside `p` alone, and in `p` those that were. -/
theorem mem_rewrite {rows : List ρ} {f : ρ → ρ} {p : ρ → Prop} (hkeep : ∀ r ∈ rows, p r → p (f r))
    (hfix : ∀ r ∈ rows, ¬ p r → f r = r) {r : ρ} (hr : ¬ p r) : r ∈ rows.map f ↔ r ∈ rows := by
  refine ⟨?_, ?_⟩
  · intro h
    obtain ⟨q, hq, rfl⟩ := List.mem_map.mp h
    have hpq : ¬ p q := fun h => hr (hkeep q hq h)
    rw [hfix q hq hpq]
    exact hq
  · intro h
    exact List.mem_map.mpr ⟨r, h, hfix r h hr⟩

/-! ### Rows as a map of their keys -/

/-- The row of each key. -/
def entries [DecidableEq κ] (key : ρ → κ) (rows : List ρ) (k : κ) : Option ρ := rows.find? fun r => key r = k

section Entries
variable [DecidableEq κ] {rows : List ρ}

theorem entries_eq_some (h : Unique key rows) {k : κ} {r : ρ} : entries key rows k = some r ↔ r ∈ rows ∧ key r = k := by
  refine ⟨?_, ?_⟩
  · intro hr
    have hkey : decide (key r = k) := List.find?_some (p := fun q => key q = k) hr
    exact ⟨List.mem_of_find?_eq_some hr, of_decide_eq_true hkey⟩
  · intro hr
    exact h.find? hr.1 hr.2

/-- A row is in both tables if its key has the same row in both. -/
theorem mem_of_entries_eq {rows' : List ρ} (h : Unique key rows) (h' : Unique key rows') {r : ρ}
    (heq : entries key rows' (key r) = entries key rows (key r)) : r ∈ rows' ↔ r ∈ rows := by
  have hrows : entries key rows (key r) = some r ↔ r ∈ rows ∧ key r = key r := entries_eq_some h
  have hrows' : entries key rows' (key r) = some r ↔ r ∈ rows' ∧ key r = key r := entries_eq_some h'
  rw [heq] at hrows'
  simpa using hrows'.symm.trans hrows

theorem entries_isSome {k : κ} : (entries key rows k).isSome ↔ ∃ r ∈ rows, key r = k := by
  simp [entries, List.find?_isSome]

/-- A row with a new key is added. -/
theorem entries_snoc {r : ρ} (h : key r ∉ rows.map key) :
    entries key (rows ++ [r]) = Function.update (entries key rows) (key r) (some r) := by
  funext k
  by_cases hk : k = key r
  · subst hk
    have hnone : rows.find? (fun q => key q = key r) = none := by
      rw [List.find?_eq_none]
      intro q hq heq
      exact h (of_decide_eq_true heq ▸ List.mem_map_of_mem hq)
    simp [entries, List.find?_append, hnone]
  · simp [entries, List.find?_append, Function.update_of_ne hk, Ne.symm hk]

/-- Rewriting the row of one key, if the others stay. -/
theorem entries_rewrite {f : ρ → ρ} {r : ρ} (h : Unique key rows) (hr : r ∈ rows) (hkey : ∀ q, key (f q) = key q)
    (hfix : ∀ q ∈ rows, key q ≠ key r → f q = q) :
    entries key (rows.map f) = Function.update (entries key rows) (key r) (some (f r)) := by
  funext k
  by_cases hk : k = key r
  · subst hk
    rw [Function.update_self]
    exact (entries_eq_some (h.rewrite hkey)).mpr ⟨List.mem_map_of_mem hr, hkey r⟩
  · rw [Function.update_of_ne hk]
    ext q
    rw [entries_eq_some (h.rewrite hkey), entries_eq_some h, List.mem_map]
    refine ⟨?_, ?_⟩
    · intro hq
      obtain ⟨⟨p, hp, rfl⟩, hpk⟩ := hq
      rw [hkey] at hpk
      rw [hfix p hp (hpk ▸ hk)]
      exact ⟨hp, hpk⟩
    · intro hq
      obtain ⟨hq, rfl⟩ := hq
      exact ⟨⟨q, hq, hfix q hq hk⟩, rfl⟩

end Entries

/-! ### Lookups before inserts -/

/-- A row that was looked up: found as it was loaded, or absent and to be inserted. -/
inductive Upsert (ρ : Type*) where
  | found (row : ρ)
  | fresh (row : ρ)

/-- The row found, and else the one to insert. -/
def lookup (found : Option ρ) (new : ρ) : Upsert ρ :=
  match found with
  | some row => .found row
  | none => .fresh new

def Upsert.row : Upsert ρ → ρ
  | .found row => row
  | .fresh row => row

def Upsert.isFresh : Upsert ρ → Bool
  | .found _ => false
  | .fresh _ => true

/-- The rows after the insert, or after the update of the row found. -/
def Upsert.write (u : Upsert ρ) (update : ρ → ρ) (rows : List ρ) : List ρ :=
  match u with
  | .found _ => rows.map update
  | .fresh row => rows ++ [row]

/-- A column after an `UPDATE`, which sends only values that changed in memory. -/
def assign {α : Type*} [DecidableEq α] (loaded new current : α) : α := if new = loaded then current else new

/-! ### Records of rows -/

/-- Each row is named by exactly one of the records, and each record names a row. -/
structure Paired {ε ν : Type*} [DecidableEq ν] (name : ε → ν) (key : ρ → ν) (records : List ε) (rows : List ρ) :
    Prop where
  one : ∀ r ∈ rows, (records.filter fun e => name e = key r).length = 1
  named : ∀ e ∈ records, ∃ r ∈ rows, name e = key r

section Paired
variable {ε ν : Type*} [DecidableEq ν] {name : ε → ν} {key : ρ → ν} {records : List ε} {rows : List ρ} {e : ε} {r : ρ}

theorem paired_nil : Paired name key ([] : List ε) ([] : List ρ) :=
  ⟨(fun _ hr => nomatch hr), fun _ he => nomatch he⟩

/-- A row is added together with its record. -/
theorem Paired.snoc (h : Paired name key records rows) (hunique : Unique key (rows ++ [r])) (he : name e = key r) :
    Paired name key (records ++ [e]) (rows ++ [r]) := by
  have hnew : key r ∉ rows.map key := (unique_snoc.mp hunique).1
  refine ⟨?_, ?_⟩
  · intro q hq
    rw [List.filter_append, List.length_append]
    rcases List.mem_append.mp hq with hq | hq
    · have hother : name e ≠ key q := fun heq => hnew (he.symm.trans heq ▸ List.mem_map_of_mem hq)
      rw [h.one q hq]
      simp [hother]
    · obtain rfl := List.mem_singleton.mp hq
      have hnone : (records.filter fun e => name e = key q) = [] := by
        refine List.filter_eq_nil_iff.mpr fun e' he' heq => ?_
        obtain ⟨q', hq', hname⟩ := h.named e' he'
        exact hnew (hname.symm.trans (of_decide_eq_true heq) ▸ List.mem_map_of_mem hq')
      rw [hnone]
      simp [he]
  · intro e' he'
    rcases List.mem_append.mp he' with he' | he'
    · obtain ⟨q, hq, hname⟩ := h.named e' he'
      exact ⟨q, List.mem_append_left _ hq, hname⟩
    · obtain rfl := List.mem_singleton.mp he'
      exact ⟨r, List.mem_append_right _ (List.mem_singleton_self _), he⟩

/-- A second record of a row is one too many. -/
theorem Paired.not_again (h : Paired name key records rows) (hr : r ∈ rows) (he : name e = key r) :
    ¬ Paired name key (records ++ [e]) rows := by
  intro hagain
  have hone := hagain.one r hr
  rw [List.filter_append, List.length_append, h.one r hr] at hone
  simp [he] at hone

end Paired

/-! ### Rows of two tables, one for one -/

theorem exists_left {α β : Type*} {R : α → β → Prop} {as : List α} {bs : List β} (h : List.Forall₂ R as bs) :
    ∀ b ∈ bs, ∃ a ∈ as, R a b := by
  induction h with
  | nil => simp
  | cons hab _ ih =>
    refine List.forall_mem_cons.mpr ⟨⟨_, List.mem_cons_self .., hab⟩, fun b hb => ?_⟩
    obtain ⟨a, ha, hrest⟩ := ih b hb
    exact ⟨a, List.mem_cons_of_mem _ ha, hrest⟩

theorem exists_right {α β : Type*} {R : α → β → Prop} {as : List α} {bs : List β} (h : List.Forall₂ R as bs) :
    ∀ a ∈ as, ∃ b ∈ bs, R a b := exists_left (List.Forall₂.flip (R := flip R) h)

/-! ### Rows of an owner -/

/-- The rows of one owner. -/
def ofOwner {ο : Type*} [DecidableEq ο] (owner : ρ → ο) (o : ο) (rows : List ρ) : List ρ :=
  rows.filter fun r => owner r = o

section Owner
variable {ο : Type*} [DecidableEq ο] {owner : ρ → ο} {o : ο} {rows : List ρ}

/-- Another owner's row is added. -/
theorem ofOwner_snoc {r : ρ} (h : owner r ≠ o) : ofOwner owner o (rows ++ [r]) = ofOwner owner o rows := by
  simp [ofOwner, h]

/-- Other owners' rows are rewritten. -/
theorem ofOwner_map {f : ρ → ρ} (howner : ∀ r ∈ rows, owner (f r) = owner r)
    (hfix : ∀ r ∈ rows, owner r = o → f r = r) : ofOwner owner o (rows.map f) = ofOwner owner o rows := by
  induction rows with
  | nil => rfl
  | cons r rest ih =>
    have hrest : ofOwner owner o (rest.map f) = ofOwner owner o rest :=
      ih (fun q hq => howner q (List.mem_cons_of_mem _ hq)) fun q hq => hfix q (List.mem_cons_of_mem _ hq)
    have hr : owner (f r) = owner r := howner r (List.mem_cons_self ..)
    unfold ofOwner at hrest ⊢
    rw [List.map_cons, List.filter_cons, List.filter_cons, hr, hrest]
    by_cases ho : owner r = o
    · rw [hfix r (List.mem_cons_self ..) ho]
    · simp [ho]

/-- Another owner's row is added or rewritten. -/
theorem ofOwner_write {u : Upsert ρ} {f : ρ → ρ} (hfresh : u.isFresh → owner u.row ≠ o)
    (howner : ∀ r ∈ rows, owner (f r) = owner r) (hfix : u.isFresh = false → ∀ r ∈ rows, owner r = o → f r = r) :
    ofOwner owner o (u.write f rows) = ofOwner owner o rows := by
  cases u with
  | found row => exact ofOwner_map howner (hfix rfl)
  | fresh row => exact ofOwner_snoc (hfresh rfl)

/-- Each owner's own rows are rewritten. -/
theorem ofOwner_rewrite {f : ρ → ρ} (howner : ∀ r, owner (f r) = owner r) :
    ofOwner owner o (rows.map f) = (ofOwner owner o rows).map f := by
  unfold ofOwner
  rw [List.filter_map]
  congr 2
  funext r
  simp [howner]

/-- The owner's row is added. -/
theorem ofOwner_snoc_own {r : ρ} (h : owner r = o) :
    ofOwner owner o (rows ++ [r]) = ofOwner owner o rows ++ [r] := by
  simp [ofOwner, h]

theorem Unique.ofOwner (h : Unique key rows) : Unique key (ofOwner owner o rows) :=
  List.Nodup.sublist (List.filter_sublist.map key) h

/-- A query for rows of the owner needs no other rows. -/
theorem filter_ofOwner {p : ρ → Bool} (hp : ∀ r, p r → owner r = o) :
    (ofOwner owner o rows).filter p = rows.filter p := by
  unfold Table.ofOwner
  rw [List.filter_filter]
  refine List.filter_congr fun r _ => ?_
  by_cases h : p r
  · simp [h, hp r h]
  · simp [h]

theorem find?_ofOwner {p : ρ → Bool} (hp : ∀ r, p r → owner r = o) :
    (ofOwner owner o rows).find? p = rows.find? p := by
  rw [← List.head?_filter, ← List.head?_filter, filter_ofOwner hp]

/-- A key that only rows of the owner can have. -/
theorem mem_keys_ofOwner {k : κ} (hk : ∀ r ∈ rows, key r = k → owner r = o) :
    k ∈ (ofOwner owner o rows).map key ↔ k ∈ rows.map key := by
  refine ⟨?_, ?_⟩
  · exact fun h => (List.filter_sublist.map key).subset h
  · intro h
    obtain ⟨r, hr, hkey⟩ := List.mem_map.mp h
    exact List.mem_map.mpr ⟨r, List.mem_filter.mpr ⟨hr, decide_eq_true (hk r hr hkey)⟩, hkey⟩

/-! ### Tables that several owners write to -/

section Owned
variable {ι : Type*} {id : ρ → ι} {rows' rows'' : List ρ} {i : ι}

/-- No row of another owner has the id. -/
def NewTo (owner : ρ → ο) (id : ρ → ι) (o : ο) (rows : List ρ) (i : ι) : Prop :=
  ∀ r ∈ rows, owner r ≠ o → id r ≠ i

instance [DecidableEq ι] : Decidable (NewTo owner id o rows i) :=
  inferInstanceAs (Decidable (∀ r ∈ rows, owner r ≠ o → id r ≠ i))

/-- Whether the id is taken is for the owner's rows to say. -/
theorem NewTo.mem_ids (h : NewTo owner id o rows i) : i ∈ (ofOwner owner o rows).map id ↔ i ∈ rows.map id :=
  mem_keys_ofOwner fun r hr heq => by_contra fun hother => h r hr hother heq

/-- What one owner's statements do to a table: the rows of the others are as they were, and
no row loses its owner or its id. -/
structure WrittenBy (owner : ρ → ο) (id : ρ → ι) (o : ο) (rows rows' : List ρ) : Prop where
  others : ∀ p, p ≠ o → ofOwner owner p rows' = ofOwner owner p rows
  grows : ∀ r ∈ rows, ∃ q ∈ rows', owner q = owner r ∧ id q = id r

theorem WrittenBy.refl (rows : List ρ) : WrittenBy owner id o rows rows :=
  ⟨fun _ _ => rfl, fun r hr => ⟨r, hr, rfl, rfl⟩⟩

/-- The table is as it was. -/
theorem WrittenBy.of_eq (h : rows' = rows) : WrittenBy owner id o rows rows' := by
  rw [h]
  exact .refl rows

theorem WrittenBy.trans (h : WrittenBy owner id o rows rows') (h' : WrittenBy owner id o rows' rows'') :
    WrittenBy owner id o rows rows'' := by
  refine ⟨?_, ?_⟩
  · intro p hp
    rw [h'.others p hp, h.others p hp]
  · intro r hr
    obtain ⟨q, hq, howner, hid⟩ := h.grows r hr
    obtain ⟨q', hq', howner', hid'⟩ := h'.grows q hq
    exact ⟨q', hq', howner'.trans howner, hid'.trans hid⟩

theorem writtenBy_snoc {r : ρ} (h : owner r = o) : WrittenBy owner id o rows (rows ++ [r]) := by
  refine ⟨?_, ?_⟩
  · intro p hp
    exact ofOwner_snoc fun heq => hp (heq.symm.trans h)
  · intro q hq
    exact ⟨q, List.mem_append_left _ hq, rfl, rfl⟩

theorem writtenBy_map {f : ρ → ρ} (howner : ∀ r, owner (f r) = owner r) (hid : ∀ r, id (f r) = id r)
    (hfix : ∀ r ∈ rows, owner r ≠ o → f r = r) : WrittenBy owner id o rows (rows.map f) := by
  refine ⟨?_, ?_⟩
  · intro p hp
    exact ofOwner_map (fun r _ => howner r) fun r hr heq => hfix r hr (heq ▸ hp)
  · intro r hr
    exact ⟨f r, List.mem_map_of_mem hr, howner r, hid r⟩

/-- An id that is new after the statements was new before. -/
theorem NewTo.before {p : ο} (h : NewTo owner id p rows' i) (hwritten : WrittenBy owner id o rows rows') :
    NewTo owner id p rows i := by
  intro r hr hother
  obtain ⟨q, hq, howner, hid⟩ := hwritten.grows r hr
  rw [← hid]
  exact h q hq (howner ▸ hother)

/-- An id that is new to an owner stays so when the owner writes. -/
theorem NewTo.after (h : NewTo owner id o rows i) (hwritten : WrittenBy owner id o rows rows') :
    NewTo owner id o rows' i := by
  intro r hr hother
  have hmem : r ∈ ofOwner owner (owner r) rows' := List.mem_filter.mpr ⟨hr, by simp⟩
  rw [hwritten.others _ hother] at hmem
  exact h r (List.mem_of_mem_filter hmem) hother

end Owned
end Owner

end Sentinel.Library.Table
