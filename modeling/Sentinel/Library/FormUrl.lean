import Mathlib

/-! Forms in URLs: fields as `name=value`, joined by `&`, with every byte of their UTF-8 that
is not plain written as `%XX` and spaces as `+` (Python's `urlencode`). -/
namespace Sentinel.Library.FormUrl

/-- Letters, digits, and `_.-~`. -/
def plain (b : UInt8) : Bool := (Char.ofNat b.toNat).isAlphanum || (Char.ofNat b.toNat) ∈ ['_', '.', '-', '~']

def hexDigits : List Char := "0123456789ABCDEF".toList

def hexDigit (n : Nat) : Char := hexDigits.getD n '0'

def encodeByte (b : UInt8) : List Char :=
  if plain b then [Char.ofNat b.toNat]
  else if b = 32 then ['+']
  else ['%', hexDigit (b.toNat / 16), hexDigit (b.toNat % 16)]

def utf8 (s : String) : List UInt8 := s.toList.flatMap String.utf8EncodeChar

/-- `quote_plus`. -/
def quotePlus (s : String) : List Char := (utf8 s).flatMap encodeByte

/-- `urlencode`. -/
def urlencode (fields : List (String × String)) : String :=
  String.ofList (['&'].intercalate (fields.map fun f => quotePlus f.1 ++ '=' :: quotePlus f.2))

example : urlencode [("scope", "openid profile"), ("state", "a+b&c")] =
    "scope=openid+profile&state=a%2Bb%26c" := by decide +kernel

end Sentinel.Library.FormUrl
