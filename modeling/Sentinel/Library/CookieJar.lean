import Mathlib

/-! The cookies a browser keeps of a site.

A response sets or deletes cookies by name; a request carries those that have not run out.
The clock counts in any unit, as long as `now` and `maxAge` are in the same. -/
namespace Sentinel.Library.CookieJar

variable {κ β : Type*} [DecidableEq κ]

structure Cookie (β : Type*) where
  value : β
  expires : Int

/-- What is kept under each name. -/
abbrev Jar (κ β : Type*) := κ → Option (Cookie β)

def empty : Jar κ β := fun _ => none

/-- A `Set-Cookie` header. -/
inductive SetCookie (κ β : Type*) where
  | keep (name : κ) (value : β) (maxAge : Int)
  | delete (name : κ)

def SetCookie.name : SetCookie κ β → κ
  | .keep name _ _ => name
  | .delete name => name

/-- What the header leaves under its name. -/
def SetCookie.cookie (now : Int) : SetCookie κ β → Option (Cookie β)
  | .keep _ value maxAge => some ⟨value, now + maxAge⟩
  | .delete _ => none

def Jar.set (jar : Jar κ β) (now : Int) (header : SetCookie κ β) : Jar κ β :=
  Function.update jar header.name (header.cookie now)

/-- The jar after the headers of a response, in their order. -/
def Jar.receive (jar : Jar κ β) (now : Int) (headers : List (SetCookie κ β)) : Jar κ β :=
  headers.foldl (fun jar header => jar.set now header) jar

/-- What a request carries under a name. -/
def Jar.send (jar : Jar κ β) (now : Int) (name : κ) : Option β :=
  (jar name).bind fun c => if now < c.expires then some c.value else none

variable {jar : Jar κ β} {now : Int} {name : κ}

@[simp] theorem receive_nil : jar.receive now [] = jar := rfl

@[simp] theorem receive_cons (header : SetCookie κ β) (rest : List (SetCookie κ β)) :
    jar.receive now (header :: rest) = (jar.set now header).receive now rest := rfl

omit [DecidableEq κ] in
theorem send_eq_some {value : β} : jar.send now name = some value ↔
    ∃ c, jar name = some c ∧ now < c.expires ∧ c.value = value := by
  unfold Jar.send
  cases jar name with
  | none => simp
  | some c =>
    by_cases h : now < c.expires
    · simp [h]
    · simp [h]

end Sentinel.Library.CookieJar
