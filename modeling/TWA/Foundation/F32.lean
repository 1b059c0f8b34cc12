import Mathlib.Algebra.Order.Floor.Ring
import Mathlib.Data.Int.Log
import Mathlib.Data.Rat.Floor
import Mathlib.Tactic.Linarith
import Mathlib.Tactic.NormNum

/-!
# Single precision arithmetic over the rationals

A finite `f32` is the rational number it stands for, and an operation on such
numbers is the exact operation followed by `round`: to the nearest number with a
24-bit significand, ties to even.  Overflow to infinity, NaN and the sign of zero
are left out; code that stays within range cannot tell the difference.
-/

namespace TWA
namespace Foundation
namespace F32

def nearestEven (x : Rat) : Int :=
  let f := ⌊x⌋
  let d := x - f
  if d < 1 / 2 then f
  else if 1 / 2 < d then f + 1
  else if f % 2 = 0 then f
  else f + 1

def ulpExponent (q : Rat) : Int :=
  max (Int.log 2 |q| - 23) (-149)

def round (q : Rat) : Rat :=
  nearestEven (q / 2 ^ ulpExponent q) * 2 ^ ulpExponent q

/-- Conversion to a signed 32-bit integer: towards zero, saturating. -/
def toI32 (q : Rat) : Int :=
  let t := if q < 0 then ⌈q⌉ else ⌊q⌋
  max (-2147483648) (min 2147483647 t)

/-- Conversion to a signed 16-bit integer: towards zero, saturating. -/
def toI16 (q : Rat) : Int :=
  let t := if q < 0 then ⌈q⌉ else ⌊q⌋
  max (-32768) (min 32767 t)

theorem floor_le_nearestEven (x : Rat) : ⌊x⌋ ≤ nearestEven x := by
  unfold nearestEven
  simp only
  split
  · exact Int.le_refl _
  · split
    · omega
    · split <;> omega

theorem le_nearestEven {x : Rat} {n : Int} (h : (n : Rat) ≤ x) :
    n ≤ nearestEven x :=
  Int.le_trans (Int.le_floor.mpr h) (floor_le_nearestEven x)

theorem nearestEven_intCast (n : Int) : nearestEven n = n := by
  unfold nearestEven
  simp

theorem round_eq_self {m e : Int} (hm : |m| < 2 ^ 24) (he : -149 ≤ e) :
    round (m * 2 ^ e) = m * 2 ^ e := by
  rcases eq_or_ne m 0 with hzero | hne
  · have hnear := nearestEven_intCast 0
    rw [Int.cast_zero] at hnear
    simp [hzero, round, hnear]
  · have hulp : ulpExponent (m * 2 ^ e) ≤ e := by
      have hpos : (0 : Rat) < |(m : Rat) * 2 ^ e| := by
        apply abs_pos.mpr
        exact mul_ne_zero (by exact_mod_cast hne) (zpow_ne_zero _ (by norm_num))
      have hlt : |(m : Rat) * 2 ^ e| < ((2 : Nat) : Rat) ^ (24 + e) := by
        have hcast : |(m : Rat)| < 2 ^ 24 := by exact_mod_cast hm
        have htwo : (0 : Rat) < 2 ^ e := zpow_pos (by norm_num) e
        rw [abs_mul, abs_of_pos htwo, Nat.cast_ofNat, zpow_add₀ (by norm_num)]
        exact mul_lt_mul_of_pos_right (by exact_mod_cast hcast) htwo
      have hlog := (Int.lt_zpow_iff_log_lt (by norm_num) hpos).mp hlt
      unfold ulpExponent
      omega
    have hquot : (m : Rat) * 2 ^ e / 2 ^ ulpExponent (m * 2 ^ e) =
        ((m * 2 ^ (e - ulpExponent (m * 2 ^ e)).toNat : Int) : Rat) := by
      rw [mul_div_assoc, ← zpow_sub₀ (by norm_num)]
      push_cast
      rw [← zpow_natCast, Int.toNat_of_nonneg (by omega)]
    unfold round
    rw [hquot, nearestEven_intCast, ← hquot]
    exact div_mul_cancel₀ _ (zpow_ne_zero _ (by norm_num))

theorem round_nonneg {q : Rat} (h : 0 ≤ q) : 0 ≤ round q := by
  unfold round
  have hulp : (0 : Rat) < 2 ^ ulpExponent q := zpow_pos (by norm_num) _
  have hquot : ((0 : Int) : Rat) ≤ q / 2 ^ ulpExponent q := by
    rw [Int.cast_zero]
    exact div_nonneg h hulp.le
  have hnear : (0 : Rat) ≤ nearestEven (q / 2 ^ ulpExponent q) := by
    exact_mod_cast le_nearestEven hquot
  exact mul_nonneg hnear hulp.le

/-- A power of two is representable, so rounding does not cross it. -/
theorem two_zpow_le_round {q : Rat} {k : Int} (hk : -126 ≤ k)
    (h : (2 : Rat) ^ k ≤ q) : (2 : Rat) ^ k ≤ round q := by
  have hq : 0 < q := lt_of_lt_of_le (zpow_pos (by norm_num) _) h
  have hlog : k ≤ Int.log 2 q := by
    apply (Int.zpow_le_iff_le_log (by norm_num) hq).mp
    exact_mod_cast h
  have hulp : ulpExponent q = Int.log 2 q - 23 := by
    unfold ulpExponent
    rw [abs_of_pos hq]
    omega
  have hpow : (2 : Rat) ^ Int.log 2 q = 2 ^ (23 : Int) * 2 ^ (Int.log 2 q - 23) := by
    rw [← zpow_add₀ (by norm_num)]
    congr 1
    omega
  have hpos : (0 : Rat) < 2 ^ (Int.log 2 q - 23) :=
    zpow_pos (by norm_num) _
  have hself : (2 : Rat) ^ Int.log 2 q ≤ q := by
    exact_mod_cast Int.zpow_log_le_self (b := 2) (by norm_num) hq
  have hquot : (((2 : Int) ^ 23 : Int) : Rat) ≤ q / 2 ^ (Int.log 2 q - 23) := by
    rw [le_div_iff₀ hpos]
    calc (((2 : Int) ^ 23 : Int) : Rat) * 2 ^ (Int.log 2 q - 23)
        = 2 ^ Int.log 2 q := by rw [hpow]; norm_num
      _ ≤ q := hself
  have hnear : (((2 : Int) ^ 23 : Int) : Rat) ≤
      nearestEven (q / 2 ^ (Int.log 2 q - 23)) := by
    exact_mod_cast le_nearestEven hquot
  unfold round
  rw [hulp]
  calc (2 : Rat) ^ k
      ≤ 2 ^ Int.log 2 q := zpow_le_zpow_right₀ (by norm_num) hlog
    _ = (((2 : Int) ^ 23 : Int) : Rat) * 2 ^ (Int.log 2 q - 23) := by
        rw [hpow]; norm_num
    _ ≤ nearestEven (q / 2 ^ (Int.log 2 q - 23)) * 2 ^ (Int.log 2 q - 23) :=
        mul_le_mul_of_nonneg_right hnear hpos.le

/-!
## Admissible roundings

What the loops below need to know about rounding.  Single precision satisfies
it, and so does exact arithmetic.
-/

structure Rounding (rnd : Rat -> Rat) : Prop where
  nonneg : forall {q}, 0 ≤ q -> 0 ≤ rnd q
  half_le : forall {q}, 1 / 2 ≤ q -> 1 / 2 ≤ rnd q
  one_le : forall {q}, 1 ≤ q -> 1 ≤ rnd q

theorem rounding_round : Rounding round where
  nonneg := round_nonneg
  half_le := by
    intro q h
    have hpow : ((2 : Rat) ^ (-1 : Int)) = 1 / 2 := by norm_num
    rw [← hpow] at h ⊢
    exact two_zpow_le_round (by norm_num) h
  one_le := by
    intro q h
    have hpow : ((2 : Rat) ^ (0 : Int)) = 1 := by norm_num
    rw [← hpow] at h ⊢
    exact two_zpow_le_round (by norm_num) h

theorem rounding_exact : Rounding id where
  nonneg := fun h => h
  half_le := fun h => h
  one_le := fun h => h

end F32
end Foundation
end TWA
