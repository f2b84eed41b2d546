import Mathlib

/-! Numbers as digit characters: decimal without leading zeros, and a fixed number
of digits in any base up to sixteen. Both determine the number. -/
namespace Sentinel.Library.Digits

/-- The value of a digit character, lower-case hexadecimal. -/
def digitValue (c : Char) : Nat :=
  if c.isDigit then c.toNat - '0'.toNat else c.toNat - 'a'.toNat + 10

theorem digitValue_digitChar : ∀ d, d < 16 → digitValue (Nat.digitChar d) = d := by
  decide

/-- The last `width` digits of `n`, most significant first. -/
def fixed (base : Nat) : Nat → Nat → List Char
  | 0, _ => []
  | width + 1, n => fixed base width (n / base) ++ [Nat.digitChar (n % base)]

@[simp] theorem fixed_length (base width n : Nat) : (fixed base width n).length = width := by
  induction width generalizing n with
  | zero => rfl
  | succ w ih => simp [fixed, ih]

/-- What holds of every digit holds of all of them. -/
theorem of_mem_fixed (P : Char → Prop) {base : Nat} (hbase : 0 < base) (hP : ∀ d, d < base → P (Nat.digitChar d))
    {width n : Nat} {c : Char} (h : c ∈ fixed base width n) : P c := by
  induction width generalizing n with
  | zero => cases h
  | succ w ih =>
    rw [fixed, List.mem_append, List.mem_singleton] at h
    rcases h with h | rfl
    · exact ih h
    · exact hP _ (Nat.mod_lt n hbase)

theorem fixed_inj {base : Nat} (hbase : 0 < base) (hle : base ≤ 16) {width m n : Nat}
    (hm : m < base ^ width) (hn : n < base ^ width)
    (h : fixed base width m = fixed base width n) : m = n := by
  induction width generalizing m n with
  | zero => simp at hm hn; omega
  | succ w ih =>
    obtain ⟨hinit, hlast⟩ := List.append_inj' h rfl
    have hdiv : m / base = n / base := by
      refine ih ?_ ?_ hinit <;>
        exact Nat.div_lt_of_lt_mul (by rw [Nat.mul_comm, ← Nat.pow_succ]; assumption)
    have hmod : m % base = n % base := by
      have hd := congrArg digitValue (List.singleton_inj.mp hlast)
      rwa [digitValue_digitChar _ ((Nat.mod_lt m hbase).trans_le hle),
        digitValue_digitChar _ ((Nat.mod_lt n hbase).trans_le hle)] at hd
    rw [← Nat.div_add_mod m base, ← Nat.div_add_mod n base, hdiv, hmod]

theorem decimal_inj {m n : Nat} (h : Nat.toDigits 10 m = Nat.toDigits 10 n) : m = n := by
  rw [← Nat.ofDigitChars_ten_toDigits (n := m), h, Nat.ofDigitChars_ten_toDigits]

theorem isDigit_of_mem_decimal {n : Nat} {c : Char} (h : c ∈ Nat.toDigits 10 n) : c.isDigit :=
  Nat.isDigit_of_mem_toDigits (by decide) (by decide) h

/-- Hexadecimal digits read back. -/
def value16 : List Char → Nat := fun cs => cs.foldl (fun n c => 16 * n + digitValue c) 0

theorem value16_fixed {width n : Nat} (h : n < 16 ^ width) : value16 (fixed 16 width n) = n := by
  induction width generalizing n with
  | zero =>
    simp only [Nat.pow_zero] at h
    simp only [fixed, value16, List.foldl_nil]
    omega
  | succ w ih =>
    have hdiv : n / 16 < 16 ^ w := Nat.div_lt_of_lt_mul (by rwa [Nat.mul_comm, ← Nat.pow_succ])
    have hvalue := ih hdiv
    unfold value16 at hvalue ⊢
    rw [fixed, List.foldl_append, hvalue, List.foldl_cons, List.foldl_nil,
      digitValue_digitChar _ (Nat.mod_lt n (by decide))]
    omega

end Sentinel.Library.Digits
