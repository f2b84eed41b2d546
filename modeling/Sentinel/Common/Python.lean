import Sentinel.Library.Binary64
import Sentinel.Library.Json

/-! What the services take from Python. Some of it this development leaves open. -/
namespace Sentinel.Common
open Library

/-- `str.lower` and `str.strip`, over all of Unicode, `int`, which fails on some values, and `str`
of values that are no text. -/
structure Python where
  lower : String → String
  strip : String → String
  int : Json → Option Int
  repr : Json → String

/-- `str(value)`. -/
def Python.str (py : Python) : Json → String
  | .str text => text
  | v => py.repr v

/-- Whether the value counts as true. -/
def truthy : Json → Bool
  | .null => false
  | .bool b => b
  | .int i => i ≠ 0
  | .float (.finite d) => d.digits ≠ 0
  | .float _ => true
  | .str text => text ≠ ""
  | .arr items => !items.isEmpty
  | .obj members => !members.isEmpty

/-- `value or default`, of a value that may be missing. -/
def orElse (value : Option Json) (default : Json) : Json :=
  match value with
  | some v => if truthy v then v else default
  | none => default

/-- The value of a boolean, an integer or a finite double. -/
def Python.number : Json → Option ℚ
  | .bool b => some (if b then 1 else 0)
  | .int i => some i
  | .float (.finite d) => some (Binary64.round ((if d.negative then -1 else 1) * d.digits * 10 ^ d.exponent))
  | _ => none

mutual
/-- `==`: numbers by their values, booleans among them, dictionaries whatever their order. -/
def Python.eq : Json → Json → Bool
  | .null, .null => true
  | .str s, .str t => s = t
  | .float (.infinity m), .float (.infinity n) => m = n
  | .arr xs, .arr ys => Python.eqItems xs ys
  | .obj xs, .obj ys => xs.length = ys.length && Python.eqMembers xs ys
  | v, w => (Python.number v).any fun x => Python.number w = some x

def Python.eqItems : List Json → List Json → Bool
  | [], [] => true
  | v :: xs, w :: ys => Python.eq v w && Python.eqItems xs ys
  | _, _ => false

def Python.eqMembers : List (String × Json) → List (String × Json) → Bool
  | [], _ => true
  | (key, v) :: rest, ys => (ys.lookup key).any (fun w => Python.eq v w) && Python.eqMembers rest ys
end

/-- A double has the value it has, not that of its digits. -/
example : Python.eq (.int (10 ^ 22)) (.float (.finite (.powerOfTen 22))) = true ∧
    Python.eq (.int (10 ^ 23)) (.float (.finite (.powerOfTen 23))) = false := by decide +kernel

/-- The two methods on ASCII text, `int` on integers, and canonical texts. -/
def Python.ascii : Python where
  lower := fun s => String.ofList (s.toList.map Char.toLower)
  strip := fun s =>
    String.ofList ((s.toList.dropWhile Char.isWhitespace).reverse.dropWhile Char.isWhitespace).reverse
  int := fun v => match v with
    | .int value => some value
    | _ => none
  repr := fun v => String.ofList v.dumps

end Sentinel.Common
