import Sentinel.Library.Uuid

/-! Which workspace an Entra account belongs to. -/
namespace Sentinel.Identity
open Library

def microsoftConsumerTenantId : Uuid := 0x9188040d_6c67_4c5b_b112_36a304b66dad#128

def isPersonalAccount (entraTenantId : Uuid) : Bool := entraTenantId = microsoftConsumerTenantId

def identityScopeKey (entraTenantId entraObjectId : Uuid) : String :=
  if isPersonalAccount entraTenantId then
    "personal:" ++ Uuid.str entraTenantId ++ ":" ++ Uuid.str entraObjectId
  else "tenant:" ++ Uuid.str entraTenantId

/-- `or`, on texts that may be absent: an empty one counts as absent. -/
def orText (first : Option String) (second : String) : String :=
  match first with
  | some text => if text = "" then second else text
  | none => second

def refreshAuthority (entraTenantId : Uuid) (requestedTenant : Option String) : String :=
  if isPersonalAccount entraTenantId then "common" else orText requestedTenant (Uuid.str entraTenantId)

end Sentinel.Identity
