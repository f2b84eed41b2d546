import Sentinel.Library.Table

/-! Rows with a version that an update raises by one.

The update writes the version it read plus one, not the version there is plus one. A `Tally`
has the version of each row and the log of those that updates left; `Op` is what a
transaction writes. What a transaction does to a row again follows on what it did before
(`Chained`), so all it does to a row comes down to the version it read first: the log goes on
counting exactly if that is still the version of the row (`numbered_replay`,
`Counted.current`). -/
namespace Sentinel.Library.Versions

/-- The insert of a row, which gives it version 1, or an update by somebody who saw a version. -/
inductive Op (κ : Type*) where
  | insert (k : κ)
  | update (k : κ) (seen : Nat)

def Op.key {κ : Type*} : Op κ → κ
  | .insert k => k
  | .update k _ => k

def Op.leaves {κ : Type*} : Op κ → Nat
  | .insert _ => 1
  | .update _ seen => seen + 1

@[ext]
structure Tally (κ : Type*) where
  versions : κ → Option Nat
  /-- What each update left, of the row it was of. -/
  log : List (κ × Nat)

variable {κ : Type*} [DecidableEq κ]

/-- An update of a row that is not there does nothing. -/
def Tally.apply (t : Tally κ) : Op κ → Tally κ
  | .insert k => {t with versions := Function.update t.versions k (some 1)}
  | .update k seen =>
    match t.versions k with
    | none => t
    | some _ => ⟨Function.update t.versions k (some (seen + 1)), t.log ++ [(k, seen + 1)]⟩

def Tally.replay (t : Tally κ) : List (Op κ) → Tally κ
  | [] => t
  | o :: rest => (t.apply o).replay rest

/-- What the updates of the row left. -/
def Tally.left (t : Tally κ) (k : κ) : List Nat := (t.log.filter fun e => e.1 = k).map Prod.snd

/-- No two updates of a row left one version, and its version is the initial one and as many
as there were updates. -/
structure Counted (initial : κ → Nat) (t : Tally κ) : Prop where
  distinct : ∀ k v, t.versions k = some v → (t.left k).Nodup
  total : ∀ k v, t.versions k = some v → v = initial k + (t.left k).length

/-- The updates of a row left the versions that follow on the initial one, in order. -/
def Numbered (initial : κ → Nat) (t : Tally κ) : Prop :=
  ∀ k v, t.versions k = some v → ∃ n, v = initial k + n ∧ t.left k = List.range' (initial k + 1) n

/-- A row that is not there yet was never updated, and will have version 1. -/
def Begins (initial : κ → Nat) (t : Tally κ) : Prop := ∀ k, t.versions k = none → initial k = 1 ∧ t.left k = []

/-- What is done to the row. -/
def own (k : κ) (ops : List (Op κ)) : List (Op κ) := ops.filter fun o => o.key = k

/-- The second is an update of what the first left. -/
def Follows (first second : Op κ) : Prop := second = .update first.key first.leaves

/-- Whatever is done to a row again follows on what was done to it before. -/
def Chained (ops : List (Op κ)) : Prop := ∀ k, (own k ops).IsChain Follows

/-- Each insert meets no row. -/
def Admits : List (Op κ) → Tally κ → Prop
  | [], _ => True
  | .insert k :: rest, t => t.versions k = none ∧ Admits rest (t.apply (.insert k))
  | .update k seen :: rest, t => Admits rest (t.apply (.update k seen))

/-- The version of each row that the transaction read first, if it found the row, is the
version the row has. -/
def Current (t : Tally κ) (ops : List (Op κ)) : Prop :=
  ∀ k seen v, (own k ops).head? = some (.update k seen) → t.versions k = some v → seen = v

section Apply
variable {t : Tally κ} {o : Op κ} {k : κ}

/-- Other rows stay. -/
theorem apply_other (h : o.key ≠ k) : (t.apply o).versions k = t.versions k ∧ (t.apply o).left k = t.left k := by
  cases o with
  | insert k' => exact ⟨Function.update_of_ne (Ne.symm h) _ _, rfl⟩
  | update k' seen =>
    have hne : k' ≠ k := h
    simp only [Tally.apply]
    cases t.versions k' with
    | none => exact ⟨rfl, rfl⟩
    | some v => exact ⟨Function.update_of_ne (Ne.symm h) _ _, by simp [Tally.left, hne]⟩

theorem apply_insert : (t.apply (.insert k)).versions k = some 1 ∧ (t.apply (.insert k)).left k = t.left k :=
  ⟨Function.update_self .., rfl⟩

theorem apply_update {v : Nat} (h : t.versions k = some v) (seen : Nat) :
    (t.apply (.update k seen)).versions k = some (seen + 1) ∧
      (t.apply (.update k seen)).left k = t.left k ++ [seen + 1] := by
  simp [Tally.apply, h, Tally.left]

theorem apply_missing {seen : Nat} (h : t.versions k = none) : t.apply (.update k seen) = t := by
  simp [Tally.apply, h]

/-- No row is lost. -/
theorem apply_isSome (h : (t.versions k).isSome) : ((t.apply o).versions k).isSome := by
  by_cases hk : o.key = k
  · subst hk
    cases o with
    | insert k => simp [Op.key, apply_insert.1]
    | update k seen =>
      obtain ⟨v, hv⟩ := Option.isSome_iff_exists.mp h
      exact Option.isSome_of_eq_some (apply_update hv seen).1
  · rw [(apply_other hk).1]
    exact h

/-- What is there after it is there as it left it. -/
theorem apply_leaves {v : Nat} (h : (t.apply o).versions o.key = some v) : v = o.leaves := by
  cases o with
  | insert k => exact Option.some.inj (h.symm.trans apply_insert.1)
  | update k seen =>
    cases hk : t.versions k with
    | none =>
      rw [apply_missing hk] at h
      cases hk.symm.trans h
    | some w => exact Option.some.inj (h.symm.trans (apply_update hk seen).1)

/-- What becomes of a row depends on the row. -/
theorem apply_congr {u : Tally κ} (hversions : t.versions k = u.versions k) (hleft : t.left k = u.left k) :
    (t.apply o).versions k = (u.apply o).versions k ∧ (t.apply o).left k = (u.apply o).left k := by
  by_cases hk : o.key = k
  · cases o with
    | insert k' =>
      obtain rfl : k' = k := hk
      exact ⟨apply_insert.1.trans apply_insert.1.symm, hleft⟩
    | update k' seen =>
      obtain rfl : k' = k := hk
      cases hv : t.versions k' with
      | none =>
        rw [apply_missing hv, apply_missing (hversions.symm.trans hv)]
        exact ⟨hversions, hleft⟩
      | some v =>
        obtain ⟨hversion, hleft'⟩ := apply_update hv seen
        obtain ⟨hversion', hleft''⟩ := apply_update (hversions.symm.trans hv) seen
        refine ⟨hversion.trans hversion'.symm, ?_⟩
        rw [hleft', hleft'', hleft]
  · obtain ⟨hversion, hleft'⟩ := apply_other (t := t) hk
    obtain ⟨hversion', hleft''⟩ := apply_other (t := u) hk
    exact ⟨(hversion.trans hversions).trans hversion'.symm, (hleft'.trans hleft).trans hleft''.symm⟩

end Apply

section Replay
variable {t t' : Tally κ} {ops : List (Op κ)} {k : κ}

theorem replay_snoc (o : Op κ) : t.replay (ops ++ [o]) = (t.replay ops).apply o := by
  induction ops generalizing t with
  | nil => rfl
  | cons a rest ih => exact ih

variable (ops) in
theorem own_snoc (o : Op κ) : own k (ops ++ [o]) = if o.key = k then own k ops ++ [o] else own k ops := by
  unfold own
  split_ifs with h <;> simp [h]

theorem key_of_mem_own {o : Op κ} (h : o ∈ own k ops) : o.key = k := by
  simpa using List.of_mem_filter h

variable (t ops k) in
/-- Only what is done to the row matters to it. -/
theorem replay_own : (t.replay ops).versions k = (t.replay (own k ops)).versions k ∧
    (t.replay ops).left k = (t.replay (own k ops)).left k := by
  -- The two tallies go on agreeing at the row.
  suffices hsame : ∀ u : Tally κ, t.versions k = u.versions k → t.left k = u.left k →
      (t.replay ops).versions k = (u.replay (own k ops)).versions k ∧
        (t.replay ops).left k = (u.replay (own k ops)).left k from hsame t rfl rfl
  induction ops generalizing t with
  | nil => exact fun u hversions hleft => ⟨hversions, hleft⟩
  | cons o rest ih =>
    intro u hversions hleft
    by_cases hk : o.key = k
    · have howned : own k (o :: rest) = o :: own k rest := List.filter_cons_of_pos (by simpa using hk)
      obtain ⟨hversions', hleft'⟩ := apply_congr hversions hleft
      rw [howned]
      exact ih _ (u.apply o) hversions' hleft'
    · have hother : own k (o :: rest) = own k rest := List.filter_cons_of_neg (by simpa using hk)
      rw [hother]
      exact ih _ u ((apply_other hk).1.trans hversions) ((apply_other hk).2.trans hleft)

theorem replay_isSome (h : (t.versions k).isSome) : ((t.replay ops).versions k).isSome := by
  induction ops generalizing t with
  | nil => exact h
  | cons o rest ih => exact ih (apply_isSome h)

/-- The row is as the last that was done to it left it. -/
theorem replay_last {o : Op κ} {v : Nat} (ho : (own k ops).getLast? = some o)
    (hv : (t.replay ops).versions k = some v) : v = o.leaves := by
  have hkey : o.key = k := key_of_mem_own (List.mem_of_getLast? ho)
  subst hkey
  obtain ⟨before, hops⟩ := List.getLast?_eq_some_iff.mp ho
  rw [(replay_own t ops o.key).1, hops, replay_snoc] at hv
  exact apply_leaves hv

/-- An insert among what is done to a row meets no row, and comes first. -/
theorem missing_of_head (h : Admits ops t) (hhead : (own k ops).head? = some (.insert k)) : t.versions k = none := by
  induction ops generalizing t with
  | nil => cases hhead
  | cons o rest ih =>
    by_cases hk : o.key = k
    · have howned : own k (o :: rest) = o :: own k rest := List.filter_cons_of_pos (by simpa using hk)
      rw [howned] at hhead
      cases hhead
      exact h.1
    · have hother : own k (o :: rest) = own k rest := List.filter_cons_of_neg (by simpa using hk)
      rw [hother] at hhead
      rw [← (apply_other hk).1]
      cases o with
      | insert k' => exact ih h.2 hhead
      | update k' seen => exact ih h hhead

end Replay

/-! ### One row -/

section Row
variable {t : Tally κ} {ops : List (Op κ)} {k : κ}

/-- The updates of a row by somebody who saw this version, and then what was left. -/
def updates (k : κ) (seen n : Nat) : List (Op κ) := (List.range' seen n).map (.update k)

omit [DecidableEq κ] in
/-- What is done to one row is its insert or its first update, and the updates that follow. -/
theorem own_of_chain (h : ops.IsChain Follows) (hkey : ∀ o ∈ ops, o.key = k) :
    ops = [] ∨ (∃ seen n, ops = updates k seen (n + 1)) ∨ ∃ n, ops = .insert k :: updates k 1 n := by
  induction ops with
  | nil => exact .inl rfl
  | cons o rest ih =>
    obtain ⟨hnext, hrest⟩ := List.isChain_cons.mp h
    obtain rfl : o.key = k := hkey o (List.mem_cons_self ..)
    rcases ih hrest fun o ho => hkey o (List.mem_cons_of_mem _ ho) with rfl | ⟨seen, n, hops⟩ | ⟨n, hops⟩
    · cases o with
      | insert k => exact .inr (.inr ⟨0, rfl⟩)
      | update k seen => exact .inr (.inl ⟨seen, 0, rfl⟩)
    · have hfollows : Op.update o.key seen = .update o.key o.leaves := hnext _ (by rw [hops]; rfl)
      obtain ⟨-, rfl⟩ := Op.update.inj hfollows
      cases o with
      | insert k => exact .inr (.inr ⟨n + 1, by rw [hops]; rfl⟩)
      | update k seen => exact .inr (.inl ⟨seen, n + 1, by rw [hops]; rfl⟩)
    · have hfollows : Follows o (.insert o.key) := hnext _ (by rw [hops]; rfl)
      cases hfollows

/-- Updates that follow on one another, of a row that is there. -/
theorem replay_updates {v : Nat} (hv : t.versions k = some v) (seen n : Nat) :
    (t.replay (updates k seen (n + 1))).versions k = some (seen + (n + 1)) ∧
      (t.replay (updates k seen (n + 1))).left k = t.left k ++ List.range' (seen + 1) (n + 1) := by
  induction n generalizing t v seen with
  | zero => exact apply_update hv seen
  | succ n ih =>
    obtain ⟨hversion, hleft⟩ := apply_update hv seen
    obtain ⟨hversion', hleft'⟩ := ih hversion (seen + 1)
    refine ⟨hversion'.trans (congrArg some (by omega)), hleft'.trans ?_⟩
    rw [hleft, List.range'_succ, List.append_assoc]
    rfl

/-- Updates of a row that is not there. -/
theorem replay_missing (hv : t.versions k = none) (seen n : Nat) : t.replay (updates k seen n) = t := by
  induction n generalizing seen with
  | zero => rfl
  | succ n ih =>
    have hskip : t.replay (updates k seen (n + 1)) = (t.apply (.update k seen)).replay (updates k (seen + 1) n) := rfl
    rw [hskip, apply_missing hv, ih]

/-- What a transaction does to a row. -/
inductive Effect (t : Tally κ) (k : κ) (ops : List (Op κ)) (u : Tally κ) : Prop
  | none (hhead : ∀ seen, (own k ops).head? = some (.update k seen) → t.versions k = none)
      (hversion : u.versions k = t.versions k) (hleft : u.left k = t.left k)
  | inserted (n : Nat) (hhead : (own k ops).head? = some (.insert k)) (hnew : t.versions k = Option.none)
      (hversion : u.versions k = some (1 + n)) (hleft : u.left k = t.left k ++ List.range' 2 n)
  | updated (v seen n : Nat) (hhead : (own k ops).head? = some (.update k seen)) (hv : t.versions k = some v)
      (hversion : u.versions k = some (seen + (n + 1)))
      (hleft : u.left k = t.left k ++ List.range' (seen + 1) (n + 1))

theorem effect_replay (hchain : Chained ops) (hadmits : Admits ops t) (k : κ) : Effect t k ops (t.replay ops) := by
  obtain ⟨hversion, hleft⟩ := replay_own t ops k
  rcases own_of_chain (hchain k) fun o ho => key_of_mem_own ho with hown | ⟨seen, n, hown⟩ | ⟨n, hown⟩
  · rw [hown] at hversion hleft
    exact .none (by simp [hown]) hversion hleft
  · rw [hown] at hversion hleft
    cases hv : t.versions k with
    | none =>
      rw [replay_missing hv] at hversion hleft
      exact .none (fun _ _ => hv) hversion hleft
    | some v =>
      obtain ⟨hversion', hleft'⟩ := replay_updates hv seen n
      exact .updated v seen n (by rw [hown]; rfl) hv (hversion.trans hversion') (hleft.trans hleft')
  · have hhead : (own k ops).head? = some (.insert k) := by rw [hown]; rfl
    have hnew := missing_of_head hadmits hhead
    rw [hown] at hversion hleft
    obtain ⟨hone, hsame⟩ := apply_insert (t := t) (k := k)
    refine .inserted n hhead hnew (hversion.trans ?_) (hleft.trans ?_)
    · cases n with
      | zero => exact hone
      | succ n => exact (replay_updates hone 1 n).1
    · cases n with
      | zero => exact hsame.trans (List.append_nil _).symm
      | succ n => rw [← hsame]; exact (replay_updates hone 1 n).2

end Row

/-! ### What a transaction does to the count -/

section Count
variable {initial : κ → Nat} {t : Tally κ} {ops : List (Op κ)}

theorem Numbered.counted (h : Numbered initial t) : Counted initial t := by
  constructor
  · intro k v hv
    obtain ⟨n, -, hleft⟩ := h k v hv
    rw [hleft]
    exact List.nodup_range'
  · intro k v hv
    obtain ⟨n, hn, hleft⟩ := h k v hv
    rw [hleft, List.length_range', hn]

theorem begins_replay (h : Begins initial t) (hchain : Chained ops) (hadmits : Admits ops t) :
    Begins initial (t.replay ops) := by
  intro k hk
  cases effect_replay hchain hadmits k with
  | none _ hversion hleft =>
    obtain ⟨hone, hnil⟩ := h k (hversion.symm.trans hk)
    exact ⟨hone, hleft.trans hnil⟩
  | inserted _ _ _ hversion => cases hk.symm.trans hversion
  | updated _ _ _ _ _ hversion => cases hk.symm.trans hversion

/-- If the log counts on after a transaction, the versions it read first were still there. -/
theorem Counted.current (h : Numbered initial t) (hchain : Chained ops) (hadmits : Admits ops t)
    (hafter : Counted initial (t.replay ops)) : Current t ops := by
  intro k seen v hseen hv
  cases effect_replay hchain hadmits k with
  | none hhead => cases (hhead seen hseen).symm.trans hv
  | inserted _ hhead => cases hhead.symm.trans hseen
  | updated w seen' n hhead hw hversion hleft =>
    obtain ⟨-, rfl⟩ := Op.update.inj (Option.some.inj (hhead.symm.trans hseen))
    obtain rfl := Option.some.inj (hw.symm.trans hv)
    obtain ⟨m, rfl, hbefore⟩ := h k w hw
    have htotal := hafter.total k _ hversion
    rw [hleft, hbefore, List.length_append, List.length_range', List.length_range'] at htotal
    omega

/-- **A transaction keeps the count** if the versions it read first are still there. -/
theorem numbered_replay (hbegins : Begins initial t) (h : Numbered initial t) (hchain : Chained ops)
    (hadmits : Admits ops t) (hcurrent : Current t ops) : Numbered initial (t.replay ops) := by
  intro k v hv
  cases effect_replay hchain hadmits k with
  | none _ hversion hleft =>
    obtain ⟨n, hn, hbefore⟩ := h k v (hversion.symm.trans hv)
    exact ⟨n, hn, hleft.trans hbefore⟩
  | inserted n _ hnew hversion hleft =>
    obtain ⟨hone, hnil⟩ := hbegins k hnew
    obtain rfl := Option.some.inj (hversion.symm.trans hv)
    refine ⟨n, by rw [hone], ?_⟩
    rw [hleft, hnil, hone]
    rfl
  | updated w seen n hhead hw hversion hleft =>
    obtain rfl := hcurrent k seen w hhead hw
    obtain rfl := Option.some.inj (hversion.symm.trans hv)
    obtain ⟨m, rfl, hbefore⟩ := h k seen hw
    refine ⟨m + (n + 1), by omega, ?_⟩
    rw [hleft, hbefore, Nat.add_right_comm (initial k) m 1]
    exact List.range'_append_1

end Count

/-! ### Tables -/

section Rows
variable {ρ : Type*} {key : ρ → κ} {version : ρ → Nat} {rows : List ρ}

/-- The versions of the rows of a table. -/
def versionsOf (key : ρ → κ) (version : ρ → Nat) (rows : List ρ) (k : κ) : Option Nat :=
  (Table.entries key rows k).map version

theorem versionsOf_eq_none {k : κ} : versionsOf key version rows k = none ↔ k ∉ rows.map key := by
  rw [← Option.not_isSome_iff_eq_none, versionsOf, Option.isSome_map, Table.entries_isSome, List.mem_map]

/-- What there is in a table after this is done to a row of it. -/
def Op.on : Op κ → Option Nat → Option Nat
  | .insert _, _ => some 1
  | .update _ seen, v => v.map fun _ => seen + 1

theorem versions_apply (t : Tally κ) (o : Op κ) (k : κ) :
    (t.apply o).versions k = if o.key = k then o.on (t.versions k) else t.versions k := by
  split_ifs with hk
  · cases o with
    | insert k' =>
      obtain rfl : k' = k := hk
      exact apply_insert.1
    | update k' seen =>
      obtain rfl : k' = k := hk
      cases hv : t.versions k' with
      | none =>
        rw [apply_missing hv, hv]
        rfl
      | some v => exact (apply_update hv seen).1
  · exact (apply_other hk).1

theorem versionsOf_snoc {r : ρ} (hnew : key r ∉ rows.map key) (hone : version r = 1) (k : κ) :
    versionsOf key version (rows ++ [r]) k =
      if key r = k then (Op.insert (key r)).on (versionsOf key version rows k) else versionsOf key version rows k := by
  unfold versionsOf
  rw [Table.entries_snoc hnew]
  split_ifs with hk
  · subst hk
    rw [Function.update_self, Option.map_some, hone]
    rfl
  · rw [Function.update_of_ne (Ne.symm hk)]

theorem versionsOf_map {f : ρ → ρ} (hkey : ∀ r, key (f r) = key r) {k₀ : κ} {seen : Nat}
    (hf : ∀ r ∈ rows, version (f r) = if key r = k₀ then seen + 1 else version r) (k : κ) :
    versionsOf key version (rows.map f) k =
      if k₀ = k then (Op.update k₀ seen).on (versionsOf key version rows k) else versionsOf key version rows k := by
  have hfind : Table.entries key (rows.map f) k = (Table.entries key rows k).map f := by
    unfold Table.entries
    rw [List.find?_map]
    congr 2
    funext r
    exact congrArg (decide <| · = k) (hkey r)
  unfold versionsOf
  rw [hfind]
  cases hr : Table.entries key rows k with
  | none => split_ifs <;> rfl
  | some r =>
    have hrk : key r = k := by simpa using List.find?_some (p := fun q => key q = k) hr
    simp only [Option.map_some, hf r (List.mem_of_find?_eq_some hr), hrk, Op.on]
    split_ifs with h h' h'
    · rfl
    · exact absurd h.symm h'
    · exact absurd h'.symm h
    · rfl

/-- One write on the tables, with nothing in the way of an insert. -/
structure Writes (o : Op κ) (v v' : κ → Option Nat) : Prop where
  on : ∀ k, v' k = if o.key = k then o.on (v k) else v k
  admits : ∀ k, o = .insert k → v k = none

section OneTable
variable {ρ μ : Type*} [DecidableEq μ] {key : ρ → μ} {version : ρ → Nat} {rows rows' : List ρ} {v v' : κ → Option Nat}

/-- Of all tables only one has changed, the rows of which are known as `name` says. -/
structure OnlyTable (name : μ → κ) (key : ρ → μ) (version : ρ → Nat) (rows rows' : List ρ) (v v' : κ → Option Nat) :
    Prop where
  injective : Function.Injective name
  before : ∀ m, v (name m) = versionsOf key version rows m
  after : ∀ m, v' (name m) = versionsOf key version rows' m
  others : ∀ k, (∀ m, k ≠ name m) → v' k = v k

theorem OnlyTable.on {name : μ → κ} (h : OnlyTable name key version rows rows' v v') {o : Op μ} {o' : Op κ} {m : μ}
    (hkey : o'.key = name m) (hon : ∀ v, o'.on v = o.on v)
    (hrows : ∀ k, versionsOf key version rows' k =
      if m = k then o.on (versionsOf key version rows k) else versionsOf key version rows k) (k : κ) :
    v' k = if o'.key = k then o'.on (v k) else v k := by
  rw [hkey]
  by_cases hk : ∃ m', k = name m'
  · obtain ⟨m', rfl⟩ := hk
    rw [h.after, hrows, h.before, hon]
    simp only [h.injective.eq_iff]
  · have hne : ∀ m', k ≠ name m' := fun m' heq => hk ⟨m', heq⟩
    rw [if_neg (hne m).symm]
    exact h.others k hne

/-- A row is added. -/
theorem OnlyTable.insert {name : μ → κ} {r : ρ} (h : OnlyTable name key version rows (rows ++ [r]) v v')
    (hunique : Table.Unique key (rows ++ [r])) (hone : version r = 1) : Writes (.insert (name (key r))) v v' := by
  have hnew : key r ∉ rows.map key := (Table.unique_snoc.mp hunique).1
  refine ⟨h.on (o := .insert (key r)) rfl (fun _ => rfl) (versionsOf_snoc hnew hone), ?_⟩
  intro k hk
  cases hk
  rw [h.before]
  exact versionsOf_eq_none.mpr hnew

/-- A row is updated. -/
theorem OnlyTable.update {name : μ → κ} {f : ρ → ρ} (h : OnlyTable name key version rows (rows.map f) v v')
    (hkey : ∀ r, key (f r) = key r) {m : μ} {seen : Nat}
    (hf : ∀ r ∈ rows, version (f r) = if key r = m then seen + 1 else version r) :
    Writes (.update (name m) seen) v v' := by
  refine ⟨h.on (o := .update m seen) rfl (fun _ => rfl) (versionsOf_map hkey hf), ?_⟩
  intro k hk
  cases hk

end OneTable

/-- The writes of a transaction on the tables. -/
inductive Replays : List (Op κ) → (κ → Option Nat) → (κ → Option Nat) → Prop
  | nil (v : κ → Option Nat) : Replays [] v v
  | cons {o : Op κ} {rest : List (Op κ)} {v v' v'' : κ → Option Nat} (h : Writes o v v') (hrest : Replays rest v' v'') :
      Replays (o :: rest) v v''

theorem Replays.append {first second : List (Op κ)} {v v' v'' : κ → Option Nat} (h : Replays first v v')
    (h' : Replays second v' v'') : Replays (first ++ second) v v'' := by
  induction h with
  | nil => exact h'
  | cons hwrite _ ih => exact .cons hwrite (ih h')

/-- The tally follows the tables. -/
theorem Replays.replay {ops : List (Op κ)} {t : Tally κ} {v' : κ → Option Nat} (h : Replays ops t.versions v') :
    (t.replay ops).versions = v' ∧ Admits ops t := by
  generalize hv : t.versions = v at h
  induction h generalizing t with
  | nil v => exact ⟨hv, trivial⟩
  | @cons o rest v v' v'' hwrite _ ih =>
    subst hv
    have happly : (t.apply o).versions = v' := funext fun k => (versions_apply t o k).trans (hwrite.on k).symm
    obtain ⟨hversions, hadmits⟩ := ih happly
    refine ⟨hversions, ?_⟩
    cases o with
    | insert k => exact ⟨hwrite.admits k rfl, hadmits⟩
    | update k seen => exact hadmits

end Rows

/-! ### How a transaction builds up -/

section Snoc
variable {ops : List (Op κ)} {o : Op κ}

theorem chained_nil : Chained ([] : List (Op κ)) := fun _ => List.isChain_nil

theorem chained_singleton (o : Op κ) : Chained [o] := by
  intro k
  have hown : own k [o] = if o.key = k then [o] else [] := own_snoc [] o
  rw [hown]
  split_ifs
  · exact List.isChain_singleton o
  · exact List.isChain_nil

theorem Chained.snoc (h : Chained ops) (ho : ∀ last, (own o.key ops).getLast? = some last → Follows last o) :
    Chained (ops ++ [o]) := by
  intro k
  rw [own_snoc]
  split_ifs with hk
  · subst hk
    refine List.isChain_append.mpr ⟨h o.key, List.isChain_singleton o, ?_⟩
    intro last hlast next hnext
    cases hnext
    exact ho last hlast
  · exact h k

/-- A row that is missing after writes of which the first updates find their rows was not
among those written. -/
theorem own_of_missing {t : Tally κ} {k : κ} (hfound : ∀ seen, (own k ops).head? = some (.update k seen) →
    (t.versions k).isSome) (h : (t.replay ops).versions k = none) : own k ops = [] := by
  cases hown : own k ops with
  | nil => rfl
  | cons first rest =>
    have hkey : first.key = k := key_of_mem_own (hown ▸ List.mem_cons_self ..)
    rw [(replay_own t ops k).1, hown] at h
    have hpresent : ((t.replay (first :: rest)).versions k).isSome := by
      cases first with
      | insert k' =>
        obtain rfl : k' = k := hkey
        have hone : ((t.apply (.insert k')).versions k').isSome := by rw [apply_insert.1]; rfl
        have hafter : (((t.apply (.insert k')).replay rest).versions k').isSome := replay_isSome hone
        exact hafter
      | update k' seen =>
        obtain rfl : k' = k := hkey
        exact replay_isSome (hfound seen (by rw [hown]; rfl))
    rw [h] at hpresent
    cases hpresent

end Snoc
end Sentinel.Library.Versions
