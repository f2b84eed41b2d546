import Sentinel.Identity.Session

/-! Tokens in the clear: their key and the claims of their payload, line by line.

Anyone can read and make them, but what is asked of `Tokens` they do. -/
namespace Sentinel.Identity
open Library

def claimText : Json → Option String
  | .int i => if 0 ≤ i ∧ i < 2 ^ 128 then some ("i" ++ Uuid.str (BitVec.ofInt 128 i)) else none
  | .str s => some ("s" ++ s)
  | _ => none

def ofClaimText (text : String) : Option Json :=
  match text.toList with
  | 'i' :: rest => (Uuid.ofStr (String.ofList rest)).map fun u => .int u.toNat
  | 's' :: rest => some (.str (String.ofList rest))
  | _ => none

theorem ofClaimText_claimText {v : Json} {text : String} (h : claimText v = some text) :
    ofClaimText text = some v := by
  unfold claimText at h
  split at h
  · rename_i i
    split_ifs at h with hi
    obtain rfl := Option.some.inj h
    have hnat : (BitVec.ofInt 128 i).toNat = i.toNat := by
      rw [BitVec.toNat_ofInt]
      omega
    simp [ofClaimText, Uuid.ofStr_str, hnat, hi.1]
  · obtain rfl := Option.some.inj h
    simp [ofClaimText]
  · cases h

theorem wellFormed_of_claimText {v : Json} (h : (claimText v).isSome) : v.WellFormed := by
  unfold claimText at h
  split at h
  · simp [Json.WellFormed]
  · simp [Json.WellFormed]
  · cases h

/-- Two lines for each claim. -/
def claimLines : List (String × Json) → Option (List (List Char))
  | [] => some []
  | m :: rest => do
    let text ← claimText m.2
    let lines ← claimLines rest
    if '\n' ∈ m.1.toList ∨ '\n' ∈ text.toList then none else return m.1.toList :: text.toList :: lines

def ofClaimLines : List (List Char) → Option (List (String × Json))
  | [] => some []
  | name :: text :: lines => do
    let v ← ofClaimText (String.ofList text)
    return (String.ofList name, v) :: (← ofClaimLines lines)
  | _ => none

theorem ofClaimLines_claimLines {members : List (String × Json)} {lines : List (List Char)}
    (h : claimLines members = some lines) : ofClaimLines lines = some members ∧
      (∀ line ∈ lines, '\n' ∉ line) ∧ ∀ m ∈ members, (claimText m.2).isSome := by
  induction members generalizing lines with
  | nil =>
    cases h
    exact ⟨rfl, by simp, by simp⟩
  | cons m rest ih =>
    obtain ⟨text, htext, h⟩ := Option.bind_eq_some_iff.mp h
    obtain ⟨lines', hlines, h⟩ := Option.bind_eq_some_iff.mp h
    split_ifs at h with hline
    cases h
    obtain ⟨hrest, hlines', hmembers⟩ := ih hlines
    refine ⟨?_, ?_, ?_⟩
    · simp [ofClaimLines, ofClaimText_claimText htext, hrest]
    · simpa [not_or.mp hline] using hlines'
    · simpa [htext] using hmembers

def clearEncode (payload : Json.Object) (key : String) : Except Rejection String :=
  match claimLines payload.members with
  | none => .error (.exception "not a plain payload")
  | some lines =>
    if '\n' ∈ key.toList then .error (.exception "not a key")
    else .ok (String.ofList (['\n'].intercalate ("clear".toList :: key.toList :: lines)))

def clearDecode (options : DecodeOptions) (now : Nat) (token key : String) : Option Json.Object :=
  match token.toList.splitOn '\n' with
  | _ :: signedWith :: lines => do
    let members ← ofClaimLines lines
    if h : (members.map Prod.fst).Nodup ∧ ∀ m ∈ members, (claimText m.2).isSome then
      let payload : Json.Object := ⟨members, (Json.wellFormed_obj members).mpr
        ⟨h.1, fun m hm => wellFormed_of_claimText (h.2 m hm)⟩⟩
      if signedWith = key.toList ∧ options.passes now payload then some payload else none
    else none
  | _ => none

theorem clearDecode_clearEncode {payload : Json.Object} {key token : String} (h : clearEncode payload key = .ok token)
    (options : DecodeOptions) (now : Nat) :
    clearDecode options now token key = if options.passes now payload then some payload else none := by
  unfold clearEncode at h
  split at h
  · cases h
  · rename_i lines hlines
    split_ifs at h with hkey
    cases h
    obtain ⟨hread, hline, hmembers⟩ := ofClaimLines_claimLines hlines
    have hsplit : (['\n'].intercalate ("clear".toList :: key.toList :: lines)).splitOn '\n' =
        "clear".toList :: key.toList :: lines := by
      refine List.splitOn_intercalate '\n' ?_ (by simp)
      intro line hmem
      rcases List.mem_cons.mp hmem with rfl | hmem
      · decide
      · rcases List.mem_cons.mp hmem with rfl | hmem
        · exact hkey
        · exact hline line hmem
    have hformed := ((Json.wellFormed_obj _).mp payload.wellFormed).1
    unfold clearDecode
    rw [String.toList_ofList, hsplit]
    simp only [hread, Option.bind_eq_bind, Option.bind_some, dif_pos (And.intro hformed hmembers), true_and]

theorem clearEncode_ne_empty (payload : Json.Object) (key : String) : clearEncode payload key ≠ .ok "" := by
  unfold clearEncode
  split
  · simp
  · rename_i lines hlines
    split_ifs
    · simp
    · intro h
      have htext := congrArg String.toList (Except.ok.inj h)
      simp [List.intercalate] at htext

def Tokens.clear : Tokens where
  encode := clearEncode
  decode := clearDecode
  uuid := Uuid.ofStr
  decode_encode := fun _ _ _ options now _ h => clearDecode_clearEncode h options now
  encode_ne_empty := clearEncode_ne_empty
  uuid_str := Uuid.ofStr_str

end Sentinel.Identity
