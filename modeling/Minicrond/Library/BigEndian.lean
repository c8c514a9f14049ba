import Mathlib.Algebra.Order.Ring.Nat
import Mathlib.Tactic.Ring

/-! Unsigned numbers as big-endian byte strings of a fixed width. -/

namespace Minicrond.Library.BigEndian

def put : ℕ → ℕ → List UInt8
  | 0, _ => []
  | width + 1, n => put width (n / 256) ++ [UInt8.ofNat n]

def get (bytes : List UInt8) : ℕ := bytes.foldl (fun n b => n * 256 + b.toNat) 0

@[simp]
lemma length_put (width n : ℕ) : (put width n).length = width := by
  induction width generalizing n with
  | zero => rfl
  | succ width ih => rw [put, List.length_append, ih, List.length_singleton]

lemma get_append_singleton (bytes : List UInt8) (b : UInt8) : get (bytes ++ [b]) = get bytes * 256 + b.toNat := by
  rw [get, List.foldl_append, List.foldl_cons, List.foldl_nil, get]

lemma get_put (width n : ℕ) : get (put width n) = n % 256 ^ width := by
  induction width generalizing n with
  | zero => rw [pow_zero, Nat.mod_one]; rfl
  | succ width ih =>
    have hbyte : (UInt8.ofNat n).toNat = n % 256 := UInt8.toNat_ofNat'
    calc get (put (width + 1) n) = n / 256 % 256 ^ width * 256 + n % 256 := by
          rw [put, get_append_singleton, ih, hbyte]
      _ = n % (256 * 256 ^ width) := by rw [Nat.mod_mul, Nat.mul_comm, Nat.add_comm]
      _ = n % 256 ^ (width + 1) := by rw [pow_succ']

lemma get_put_of_lt {width n : ℕ} (h : n < 256 ^ width) : get (put width n) = n := by
  rw [get_put, Nat.mod_eq_of_lt h]

end Minicrond.Library.BigEndian
