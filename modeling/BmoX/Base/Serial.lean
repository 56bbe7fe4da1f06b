import Mathlib.Tactic.Common

/-!
# Serial numbers

A 32-bit number that stands for a counter, counted from a base and wrapping around. Counters
less than half the circle apart are compared by the difference of their numbers.
-/

namespace BmoX.Base

/-- The number that stands for the counter `n`, from the base `b`. -/
def serial (b : UInt32) (n : Nat) : UInt32 := b + UInt32.ofNat n

@[simp] theorem serial_zero (b : UInt32) : serial b 0 = b := by
  rw [serial, show UInt32.ofNat 0 = 0 from rfl, UInt32.add_zero]

theorem serial_add (b : UInt32) (m n : Nat) : serial b (m + n) = serial b m + UInt32.ofNat n := by
  rw [serial, serial, UInt32.ofNat_add, UInt32.add_assoc]

theorem serial_succ (b : UInt32) (n : Nat) : serial b (n + 1) = serial b n + 1 :=
  serial_add b n 1

theorem serial_one (b : UInt32) : serial b 1 = b + 1 := rfl

theorem toNat_serial (b : UInt32) (n : Nat) : (serial b n).toNat = (b.toNat + n) % 4294967296 := by
  rw [serial, UInt32.toNat_add, UInt32.toNat_ofNat']
  omega

theorem toNat_serial_sub (b : UInt32) {m n : Nat} (h : m ≤ n) (hn : n - m < 4294967296) :
    (serial b n - serial b m).toNat = n - m := by
  rw [UInt32.toNat_sub, toNat_serial, toNat_serial]
  omega

theorem toNat_serial_sub_of_lt (b : UInt32) {m n : Nat} (h : m < n) (hn : n - m ≤ 4294967296) :
    (serial b m - serial b n).toNat = 4294967296 - (n - m) := by
  rw [UInt32.toNat_sub, toNat_serial, toNat_serial]
  have := b.toNat_lt
  omega

end BmoX.Base
