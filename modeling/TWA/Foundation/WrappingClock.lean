import Mathlib.Algebra.Order.Floor.Ring

/-!
# A clock that wraps

A program that keeps milliseconds in 32 bits sees a time modulo `2 ^ 32`.  These are
the values of its wrapping differences, in terms of the times themselves.
-/

namespace TWA
namespace Foundation
namespace WrappingClock

/-- The stamp of a time. -/
def stamp (time : Nat) : UInt32 :=
  UInt32.ofNat time

section Differences

variable {t u : Nat}

theorem toNat_stamp (t : Nat) : (stamp t).toNat = t % 2 ^ 32 :=
  UInt32.toNat_ofNat'

theorem stamp_eq_zero (t : Nat) : stamp t = 0 <-> t % 2 ^ 32 = 0 := by
  rw [← UInt32.toNat_inj, toNat_stamp]
  rfl

theorem stamp_add (t : Nat) (d : UInt32) : stamp t + d = stamp (t + d.toNat) := by
  rw [← UInt32.toNat_inj, UInt32.toNat_add, toNat_stamp, toNat_stamp]
  omega

theorem toNat_stamp_sub (h : t ≤ u) : (stamp u - stamp t).toNat = (u - t) % 2 ^ 32 := by
  rw [UInt32.toNat_sub, toNat_stamp, toNat_stamp]
  omega

theorem toNat_stamp_sub_back (h : u ≤ t) :
    (stamp u - stamp t).toNat = (2 ^ 32 - (t - u) % 2 ^ 32) % 2 ^ 32 := by
  rw [UInt32.toNat_sub, toNat_stamp, toNat_stamp]
  omega

end Differences

end WrappingClock
end Foundation
end TWA
