import Sentinel.Library.Digits

/-! Python's `datetime`: a wall clock with microseconds and, when it is aware, an offset
from UTC. `isoformat` writes both, a `timestamptz` column keeps only the instant. -/
namespace Sentinel.Library

/-- Microseconds since `0001-01-01T00:00:00` UTC, on a clock that does not end. -/
abbrev Instant := Nat

namespace Datetime

def second : Nat := 1000000
def minute : Nat := 60 * second
def hour : Nat := 60 * minute
def day : Nat := 24 * hour

/-- The first instant after the year 9999. -/
def maximum : Nat := 3652059 * day

end Datetime

/-- The instants a `datetime` can show. -/
abbrev Timestamp := Fin Datetime.maximum

instance : NeZero Datetime.maximum := ⟨by decide⟩

structure Datetime where
  wall : Nat
  offset : Option Int
  wall_lt : wall < Datetime.maximum
  offset_lt : ∀ o ∈ offset, o.natAbs < Datetime.day
  deriving DecidableEq

namespace Datetime

/-- The instant read with offset `+00:00`. -/
def utc (t : Timestamp) : Datetime :=
  ⟨t, some 0, t.isLt, by simp [day, hour, minute, second]⟩

/-- `astimezone(utc)`, a naive value taken in the zone of the host; it overflows
outside the years 1 to 9999. -/
def timestamp (localOffset : Nat → Int) (d : Datetime) : Option Timestamp :=
  let i := (d.wall : Int) - d.offset.getD (localOffset d.wall)
  if h : 0 ≤ i ∧ i < maximum then some ⟨i.toNat, by omega⟩ else none

/-! ### isoformat -/

def twoDigits (n : Nat) : List Char := Digits.fixed 10 2 n

def isLeap (year : Nat) : Bool := year % 4 = 0 && (year % 100 ≠ 0 || year % 400 = 0)

def daysInMonth (year : Nat) : List Nat :=
  [31, if isLeap year then 29 else 28, 31, 30, 31, 30, 31, 31, 30, 31, 30, 31]

/-- The month and the day of month of day `n` of a year, both from 1. -/
def monthDay : List Nat → Nat → Nat → Nat × Nat
  | [], month, n => (month, n + 1)
  | days :: rest, month, n => if n < days then (month, n + 1) else monthDay rest (month + 1) (n - days)

/-- The year, and the day of the year, of a day counted from `0001-01-01`. -/
def yearDay (n : Nat) : Nat × Nat :=
  let n400 := n / 146097
  let r400 := n % 146097
  -- The last day of a cycle belongs to the year before the one the quotient names.
  let n100 := min (r400 / 36524) 3
  let r100 := r400 - n100 * 36524
  let n4 := r100 / 1461
  let r4 := r100 % 1461
  let n1 := min (r4 / 365) 3
  (n400 * 400 + n100 * 100 + n4 * 4 + n1 + 1, r4 - n1 * 365)

def dateText (n : Nat) : List Char :=
  let (year, r) := yearDay n
  let (month, dayOfMonth) := monthDay (daysInMonth year) 1 r
  Digits.fixed 10 4 year ++ '-' :: twoDigits month ++ '-' :: twoDigits dayOfMonth

def fractionText (micros : Nat) : List Char :=
  if micros = 0 then [] else '.' :: Digits.fixed 10 6 micros

def clockText (t : Nat) : List Char :=
  twoDigits (t / hour) ++ ':' :: twoDigits (t / minute % 60) ++ ':' :: twoDigits (t / second % 60) ++
    fractionText (t % second)

/-- Hours and minutes, and the seconds only when there are any. -/
def spanText (t : Nat) : List Char :=
  twoDigits (t / hour) ++ ':' :: twoDigits (t / minute % 60) ++
    if t % minute = 0 then []
    else ':' :: twoDigits (t / second % 60) ++ fractionText (t % second)

def offsetText : Option Int → List Char
  | none => []
  | some o => (if o < 0 then '-' else '+') :: spanText o.natAbs

/-- `datetime.isoformat()`. -/
def isoformat (d : Datetime) : List Char :=
  dateText (d.wall / day) ++ 'T' :: clockText (d.wall % day) ++ offsetText d.offset

example : isoformat ⟨63745056000000000 + 13 * hour + 5 * second + 250, some (-(90 * minute : Int)),
    by decide, by decide⟩ = "2021-01-01T13:00:05.000250-01:30".toList := by decide

/-! ### What the text says about the offset -/

theorem isDigit_of_mem_fixed {width n : Nat} {c : Char} (h : c ∈ Digits.fixed 10 width n) : c.isDigit :=
  Digits.of_mem_fixed (·.isDigit) (by decide) (fun d hd => by simp only [Nat.isDigit_digitChar, hd, decide_true]) h

theorem digit_ne_plus {c : Char} (h : c.isDigit) : c ≠ '+' := by
  rintro rfl
  exact absurd h (by decide)

/-- The date and the clock have no `+`. -/
theorem plus_not_mem_wall (d : Datetime) :
    '+' ∉ dateText (d.wall / day) ++ 'T' :: clockText (d.wall % day) := by
  intro h
  have digits : ∀ width n, '+' ∉ Digits.fixed 10 width n := fun width n h =>
    digit_ne_plus (isDigit_of_mem_fixed h) rfl
  simp only [dateText, clockText, fractionText, twoDigits, List.mem_append, List.mem_cons] at h
  split_ifs at h <;> simp_all

theorem plus_not_mem_span (t : Nat) : '+' ∉ spanText t := by
  have digits : ∀ width n, '+' ∉ Digits.fixed 10 width n := fun width n h =>
    digit_ne_plus (isDigit_of_mem_fixed h) rfl
  unfold spanText twoDigits fractionText
  split_ifs <;> simp [digits]

/-- A span of less than a day that prints `00:00` is no span at all. -/
theorem span_zero {t : Nat} (ht : t < day) (h : spanText t = spanText 0) : t = 0 := by
  have hlen := congrArg List.length h
  unfold spanText at h hlen
  by_cases hminute : t % minute = 0
  · simp only [hminute, Nat.zero_mod, if_true, List.append_nil] at h
    obtain ⟨hhour, hrest⟩ := List.append_inj h (by simp [twoDigits])
    have bound : ∀ m, m < 100 → twoDigits m = twoDigits 0 → m = 0 := fun m hm heq =>
      Digits.fixed_inj (by decide) (by decide) (by simpa using hm) (by decide) heq
    have hlt : t / hour < 100 := by
      simp only [day, hour, minute, second] at ht ⊢
      omega
    have h1 := bound _ hlt hhour
    have h2 := bound _ (by omega) (List.cons.inj hrest).2
    simp only [hour, minute, second] at *
    omega
  · simp [hminute, twoDigits] at hlen
    omega

/-- A text with a `+` in it splits there in one way. -/
theorem split_at_plus {a b s t : List Char} (ha : '+' ∉ a) (hb : '+' ∉ b)
    (h : a ++ '+' :: s = b ++ '+' :: t) : s = t := by
  induction a generalizing b with
  | nil =>
    cases b with
    | nil => exact (List.cons.inj h).2
    | cons y b => exact absurd (List.cons.inj h).1 (fun heq => hb (by simp [← heq]))
  | cons x a ih =>
    cases b with
    | nil => exact absurd (List.cons.inj h).1 (fun heq => ha (by simp [heq]))
    | cons y b =>
      exact ih (fun hm => ha (by simp [hm])) (fun hm => hb (by simp [hm])) (List.cons.inj h).2

/-- **An aware value read back from its instant prints as it did** exactly when it had
offset zero. -/
theorem isoformat_utc_iff {localOffset : Nat → Int} {d : Datetime} {o : Int} {t : Timestamp}
    (ho : d.offset = some o) (ht : d.timestamp localOffset = some t) :
    (utc t).isoformat = d.isoformat ↔ o = 0 := by
  refine ⟨?_, ?_⟩
  · intro heq
    simp only [isoformat, ho, offsetText, utc] at heq
    by_cases hneg : o < 0
    · -- The text written has no plus sign at all.
      have hmem : '+' ∈ dateText (d.wall / day) ++ 'T' :: clockText (d.wall % day) ++
          '-' :: spanText o.natAbs := by
        rw [if_pos hneg] at heq
        rw [← heq]
        simp
      rw [List.mem_append, List.mem_cons] at hmem
      rcases hmem with hmem | hmem | hmem
      · exact absurd hmem (plus_not_mem_wall d)
      · exact absurd hmem (by decide)
      · exact absurd hmem (plus_not_mem_span _)
    · rw [if_neg hneg] at heq
      have hspan := split_at_plus (plus_not_mem_wall (utc t)) (plus_not_mem_wall d) heq
      have hzero := span_zero (d.offset_lt o ho) hspan.symm
      omega
  · rintro rfl
    have hwall : t.val = d.wall := by
      simp only [timestamp, ho, Option.getD_some, Int.sub_zero] at ht
      split_ifs at ht
      have := congrArg Fin.val (Option.some.inj ht)
      simpa using this.symm
    have hd : utc t = d := by
      cases d
      simp_all [utc]
    rw [hd]

end Datetime
end Sentinel.Library
