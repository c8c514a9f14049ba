import Mathlib.Algebra.Order.Group.Int
import Mathlib.Algebra.Order.Ring.Int

/-! Instants and durations in nanoseconds. An instant counts from the Unix epoch; the
zero `time.Time`, which the program uses for "no instant", is `none` where it can occur. -/

namespace Minicrond.Time

def microsecond : ℤ := 1000
def second : ℤ := 1000000000
def minute : ℤ := 60000000000
def hour : ℤ := 3600000000000

def maxInt64 : ℤ := 9223372036854775807

def minInt64 : ℤ := -9223372036854775808

def wrap (x : ℤ) : ℤ := (x + 9223372036854775808) % 18446744073709551616 - 9223372036854775808

def sub (t u : ℤ) : ℤ := max minInt64 (min maxInt64 (t - u))

def truncateMinute (t : ℤ) : ℤ := t - t % minute

def unixMicro (t : ℤ) : ℤ := t / microsecond

def ofUnixMicro (us : ℤ) : ℤ := us * microsecond

def maxTime (last : Option ℤ) (now : ℤ) : ℤ :=
  match last with
  | none => now
  | some l => if now < l then l else now

lemma wrap_eq {x : ℤ} (hl : minInt64 ≤ x) (hu : x ≤ maxInt64) : wrap x = x := by
  simp only [wrap]
  simp only [minInt64] at hl
  simp only [maxInt64] at hu
  omega

lemma sub_eq {t u : ℤ} (hl : u ≤ t) (hu : t - u ≤ maxInt64) : sub t u = t - u := by
  simp only [sub, minInt64, maxInt64] at *
  omega

lemma sub_nonneg {t u : ℤ} (h : u ≤ t) : 0 ≤ sub t u := by
  simp only [sub, minInt64, maxInt64]
  omega

lemma sub_le {t u : ℤ} (h : u ≤ t) : sub t u ≤ t - u := by
  simp only [sub, minInt64, maxInt64]
  omega

lemma sub_le_max (t u : ℤ) : sub t u ≤ maxInt64 := by
  simp only [sub, minInt64, maxInt64]
  omega

lemma le_maxTime_left {l : ℤ} {last : Option ℤ} (h : last = some l) (now : ℤ) : l ≤ maxTime last now := by
  subst h
  simp only [maxTime]
  split_ifs <;> omega

lemma maxTime_cases (last : Option ℤ) (now : ℤ) : maxTime last now = now ∨ last = some (maxTime last now) := by
  simp only [maxTime]
  split
  · exact .inl rfl
  · split_ifs
    · exact .inr rfl
    · exact .inl rfl

lemma lt_unixMicro {t : ℤ} {us : ℤ} (ht : microsecond ∣ t) (h : ofUnixMicro us < t) : us < unixMicro t := by
  obtain ⟨k, rfl⟩ := ht
  simp only [ofUnixMicro] at h
  simp only [unixMicro]
  simp only [microsecond] at *
  omega

end Minicrond.Time
