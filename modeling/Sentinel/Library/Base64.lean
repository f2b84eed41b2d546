import Mathlib

/-! Base64 with the alphabet for URLs: three bytes as four characters, padded at the end. -/
namespace Sentinel.Library.Base64

def alphabet : List Char := "ABCDEFGHIJKLMNOPQRSTUVWXYZabcdefghijklmnopqrstuvwxyz0123456789-_".toList

def char (n : Nat) : Char := alphabet.getD n '='

/-- The six bits of a character; the padding has none. -/
def value (c : Char) : Option Nat := alphabet.findIdx? (· = c)

theorem value_char : ∀ n, n < 64 → value (char n) = some n := by
  decide +kernel

theorem char_ne_padding : ∀ n, n < 64 → char n ≠ '=' := by
  decide +kernel

def encode : List Nat → List Char
  | a :: b :: c :: rest =>
    char (a / 4) :: char (a % 4 * 16 + b / 16) :: char (b % 16 * 4 + c / 64) :: char (c % 64) :: encode rest
  | [a, b] => [char (a / 4), char (a % 4 * 16 + b / 16), char (b % 16 * 4), '=']
  | [a] => [char (a / 4), char (a % 4 * 16), '=', '=']
  | [] => []

/-- The bytes of a text with no character to skip. -/
def decode : List Char → Option (List Nat)
  | w :: x :: y :: z :: rest => do
    let w ← value w
    let x ← value x
    if y = '=' ∧ z = '=' ∧ rest = [] then return [w * 4 + x / 16]
    let y ← value y
    if z = '=' ∧ rest = [] then return [w * 4 + x / 16, x % 16 * 16 + y / 4]
    let z ← value z
    let bytes ← decode rest
    return (w * 4 + x / 16) :: (x % 16 * 16 + y / 4) :: (y % 4 * 64 + z) :: bytes
  | [] => some []
  | _ => none

theorem decode_encode {bytes : List Nat} (h : ∀ b ∈ bytes, b < 256) : decode (encode bytes) = some bytes := by
  induction bytes using encode.induct with
  | case1 a b c rest ih =>
    have ha : a < 256 := h a (by simp)
    have hb : b < 256 := h b (by simp)
    have hc : c < 256 := h c (by simp)
    have hrest : decode (encode rest) = some rest := ih fun x hx => h x (by simp [hx])
    have hy : char (b % 16 * 4 + c / 64) ≠ '=' := char_ne_padding _ (by omega)
    have hz : char (c % 64) ≠ '=' := char_ne_padding _ (by omega)
    rw [encode, decode]
    simp only [value_char _ (show a / 4 < 64 by omega), value_char _ (show a % 4 * 16 + b / 16 < 64 by omega),
      value_char _ (show b % 16 * 4 + c / 64 < 64 by omega), value_char _ (show c % 64 < 64 by omega), hy, hz, hrest,
      false_and, if_false, Option.bind_eq_bind, Option.bind_some, Option.pure_def, Option.some.injEq, List.cons.injEq]
    exact ⟨by omega, by omega, by omega, trivial⟩
  | case2 a b =>
    have ha : a < 256 := h a (by simp)
    have hb : b < 256 := h b (by simp)
    have hy : char (b % 16 * 4) ≠ '=' := char_ne_padding _ (by omega)
    rw [encode, decode]
    simp only [value_char _ (show a / 4 < 64 by omega), value_char _ (show a % 4 * 16 + b / 16 < 64 by omega),
      value_char _ (show b % 16 * 4 < 64 by omega), hy, false_and, if_false, and_self, if_true,
      Option.bind_eq_bind, Option.bind_some, Option.pure_def, Option.some.injEq, List.cons.injEq]
    exact ⟨by omega, by omega, trivial⟩
  | case3 a =>
    have ha : a < 256 := h a (by simp)
    rw [encode, decode]
    simp only [value_char _ (show a / 4 < 64 by omega), value_char _ (show a % 4 * 16 < 64 by omega), and_self,
      if_true, Option.bind_eq_bind, Option.bind_some, Option.pure_def, Option.some.injEq, List.cons.injEq]
    exact ⟨by omega, trivial⟩
  | case4 => rw [encode, decode]

end Sentinel.Library.Base64
