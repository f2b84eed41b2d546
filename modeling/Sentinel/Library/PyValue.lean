import Sentinel.Library.Json
import Sentinel.Library.Uuid

/-! Python values on their way into `json.dumps`.

A dict is serialized if each of its values is, and a UUID is not (`toJson_dict_ok`,
`toJson_dict_error`). -/
namespace Sentinel.Library

inductive PyValue where
  | int (value : Int)
  | str (value : String)
  | uuid (value : Uuid)
  | dict (members : List (String × PyValue))

namespace PyValue

mutual

/-- What `json.dumps` serializes, or the text of the `TypeError`. -/
def toJson : PyValue → Except String Json
  | .int value => .ok (.int value)
  | .str value => .ok (.str value)
  | .uuid _ => .error "Object of type UUID is not JSON serializable"
  | .dict members => (membersToJson members).map .obj

def membersToJson : List (String × PyValue) → Except String (List (String × Json))
  | [] => .ok []
  | (key, value) :: rest =>
    (toJson value).bind fun json => (membersToJson rest).map fun jsons => (key, json) :: jsons

end

/-- `json.dumps`, with compact separators and sorted keys. -/
def dumps (value : PyValue) : Except String String := value.toJson.map fun json => String.ofList json.dumps

theorem membersToJson_ok {members : List (String × PyValue)} :
    (∃ jsons, membersToJson members = .ok jsons) ↔ ∀ member ∈ members, ∃ json, toJson member.2 = .ok json := by
  induction members with
  | nil => simp [membersToJson]
  | cons member rest ih =>
    obtain ⟨key, v⟩ := member
    rw [List.forall_mem_cons, membersToJson, ← ih]
    cases toJson v with
    | error message => simp [Except.bind]
    | ok json => cases membersToJson rest <;> simp [Except.bind, Except.map]

/-- A dict is serialized exactly when all its values are. -/
theorem toJson_dict_ok {members : List (String × PyValue)} :
    (∃ json, toJson (.dict members) = .ok json) ↔ ∀ member ∈ members, ∃ json, toJson member.2 = .ok json := by
  rw [← membersToJson_ok, toJson]
  cases membersToJson members <;> simp [Except.map]

/-- With a value that is not serialized in it, neither is the dict. -/
theorem toJson_dict_error {members : List (String × PyValue)} {key message : String} {value : PyValue}
    (hmem : (key, value) ∈ members) (hvalue : toJson value = .error message) :
    ∃ message', toJson (.dict members) = .error message' := by
  cases hdict : toJson (.dict members) with
  | error message' => exact ⟨message', rfl⟩
  | ok json =>
    obtain ⟨json', hok⟩ := toJson_dict_ok.mp ⟨json, hdict⟩ (key, value) hmem
    rw [hvalue] at hok
    cases hok

end PyValue
end Sentinel.Library
