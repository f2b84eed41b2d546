import Sentinel.Library.Json

/-! Where the texts of a JSON value stand: each with the way down to it, in document order. -/
namespace Sentinel.Library.Json

/-- One level down: to the member of an object, or to the item of a list. -/
inductive Step where
  | member (key : String)
  | item (index : Nat)

/-- `.key` and `[index]`. -/
def Step.render : Step → String
  | .member key => "." ++ key
  | .item index => "[" ++ toString index ++ "]"

def render : List Step → String
  | [] => ""
  | step :: rest => step.render ++ render rest

/-- A text in a value. -/
structure TextAt where
  steps : List Step
  text : String

/-- The same text, seen from one level above. -/
def TextAt.under (step : Step) (t : TextAt) : TextAt := {t with steps := step :: t.steps}

mutual
/-- The texts in a value. -/
def texts : Json → List TextAt
  | .str text => [⟨[], text⟩]
  | .arr items => textsOfItems items 0
  | .obj members => textsOfMembers members
  | _ => []

def textsOfMembers : List (String × Json) → List TextAt
  | [] => []
  | (key, v) :: rest => (texts v).map (.under (.member key)) ++ textsOfMembers rest

/-- The texts in the items from `index` on. -/
def textsOfItems : List Json → Nat → List TextAt
  | [], _ => []
  | v :: rest, index => (texts v).map (.under (.item index)) ++ textsOfItems rest (index + 1)
end

end Sentinel.Library.Json
