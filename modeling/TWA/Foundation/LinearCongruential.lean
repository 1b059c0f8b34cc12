import Mathlib.Algebra.Ring.GeomSum
import Mathlib.Data.Int.ModEq
import Mathlib.RingTheory.Int.Basic
import Mathlib.Tactic.LinearCombination
import Mathlib.Tactic.Ring

/-!
# Linear congruential generators

A generator takes `x` to `a * x + c`, modulo a power of two.  If `a` is one more than a
multiple of four and `c` is odd, it comes back to a number only after as many steps as
there are numbers.
-/

namespace TWA
namespace Foundation
namespace LinearCongruential

open Finset (range)

/-- One step, before the remainder is taken. -/
def next (a c x : Int) : Int :=
  a * x + c

variable {a c : Int}

theorem iterate_next_sub (a c x : Int) (n : Nat) :
    (next a c)^[n] x - x = (∑ i ∈ range n, a ^ i) * ((a - 1) * x + c) := by
  induction n with
  | zero => simp
  | succ n ih =>
      have hsum : ∑ i ∈ range (n + 1), a ^ i = a * ∑ i ∈ range n, a ^ i + 1 :=
        geom_sum_succ
      rw [Function.iterate_succ_apply', hsum]
      unfold next at ih ⊢
      linear_combination a * ih

/-! ## Sums of powers -/

theorem pow_modEq_one (ha : a ≡ 1 [ZMOD 4]) (n : Nat) : a ^ n ≡ 1 [ZMOD 4] := by
  have hpow := ha.pow n
  rwa [one_pow] at hpow

theorem geom_sum_modEq (ha : a ≡ 1 [ZMOD 4]) (n : Nat) :
    ∑ i ∈ range n, a ^ i ≡ n [ZMOD 4] := by
  induction n with
  | zero => exact Int.ModEq.refl _
  | succ n ih =>
      rw [Finset.sum_range_succ, Nat.cast_succ]
      exact ih.add (pow_modEq_one ha n)

theorem geom_sum_double (a : Int) (n : Nat) :
    ∑ i ∈ range (n + n), a ^ i = (a ^ n + 1) * ∑ i ∈ range n, a ^ i := by
  rw [Finset.sum_range_add]
  simp only [pow_add, ← Finset.mul_sum]
  ring

theorem coprime_two_pow {m : Int} (h : m % 2 = 1) (k : Nat) : IsCoprime ((2 : Int) ^ k) m := by
  apply IsCoprime.pow_left
  rw [Int.isCoprime_two_left, Int.odd_iff]
  exact h

/-- A sum of powers has no more factors two than the number of its terms. -/
theorem two_pow_dvd_of_dvd_geom_sum (ha : a ≡ 1 [ZMOD 4]) (k n : Nat)
    (h : (2 : Int) ^ k ∣ ∑ i ∈ range n, a ^ i) : 2 ^ k ∣ n := by
  induction k generalizing n with
  | zero => exact Nat.one_dvd n
  | succ k ih =>
      have hmod : (∑ i ∈ range n, a ^ i) % 4 = n % 4 := geom_sum_modEq ha n
      have htwo : (2 : Int) ∣ ∑ i ∈ range n, a ^ i :=
        Dvd.dvd.trans (Dvd.intro_left (2 ^ k) (pow_succ (2 : Int) k).symm) h
      have heven : n % 2 = 0 := by omega
      have hhalf : n = n / 2 + n / 2 := by omega
      -- the other factor is twice an odd number
      have hodd : (a ^ (n / 2) + 1) % 4 = 2 := by
        have hone : a ^ (n / 2) % 4 = 1 := pow_modEq_one ha (n / 2)
        omega
      have hfactor : a ^ (n / 2) + 1 = 2 * ((a ^ (n / 2) + 1) / 2) := by omega
      have hcoprime : IsCoprime ((2 : Int) ^ k) ((a ^ (n / 2) + 1) / 2) :=
        coprime_two_pow (by omega) k
      rw [hhalf, geom_sum_double, hfactor, pow_succ', mul_assoc] at h
      have hrest := hcoprime.dvd_of_dvd_mul_left (Int.dvd_of_mul_dvd_mul_left two_ne_zero h)
      rcases ih (n / 2) hrest with ⟨m, hm⟩
      refine ⟨m, ?_⟩
      rw [hhalf, hm, pow_succ]
      ring

theorem two_pow_dvd_of_iterate_modEq (ha : a ≡ 1 [ZMOD 4]) (hc : c % 2 = 1) {k n : Nat}
    {x : Int} (h : (next a c)^[n] x ≡ x [ZMOD 2 ^ k]) : 2 ^ k ∣ n := by
  have hodd : ((a - 1) * x + c) % 2 = 1 := by
    have hfour : a % 4 = 1 := ha
    have heven : (a - 1) % 2 = 0 := by omega
    rw [Int.add_emod, Int.mul_emod, heven, hc]
    norm_num
  apply two_pow_dvd_of_dvd_geom_sum ha k n
  have hdvd : (2 : Int) ^ k ∣ (∑ i ∈ range n, a ^ i) * ((a - 1) * x + c) := by
    rw [← iterate_next_sub]
    exact h.symm.dvd
  exact (coprime_two_pow hodd k).dvd_of_dvd_mul_right hdvd

/-! ## In 32 bits -/

/-- One step of 32 bits, which drops what does not fit. -/
def wrappingNext (a c x : UInt32) : UInt32 :=
  x * a + c

section Wrapping

variable {a c : UInt32}

theorem toNat_wrappingNext (a c x : UInt32) :
    ((wrappingNext a c x).toNat : Int) ≡ next a.toNat c.toNat x.toNat [ZMOD 2 ^ 32] := by
  have htoNat : (wrappingNext a c x).toNat = (a.toNat * x.toNat + c.toNat) % 2 ^ 32 := by
    unfold wrappingNext
    rw [UInt32.toNat_add, UInt32.toNat_mul, Nat.mod_add_mod, Nat.mul_comm]
  rw [htoNat]
  push_cast
  exact Int.mod_modEq _ _

theorem toNat_iterate (a c x : UInt32) (n : Nat) :
    (((wrappingNext a c)^[n] x).toNat : Int) ≡
      (next a.toNat c.toNat)^[n] x.toNat [ZMOD 2 ^ 32] := by
  induction n with
  | zero => exact Int.ModEq.refl _
  | succ n ih =>
      rw [Function.iterate_succ_apply', Function.iterate_succ_apply']
      exact (toNat_wrappingNext a c _).trans ((ih.mul_left _).add_right _)

theorem iterate_ne (ha : a.toNat % 4 = 1) (hc : c.toNat % 2 = 1) {n : Nat} (hpos : 0 < n)
    (hlt : n < 2 ^ 32) (x : UInt32) : (wrappingNext a c)^[n] x ≠ x := by
  intro heq
  have hback : (next a.toNat c.toNat)^[n] x.toNat ≡ x.toNat [ZMOD 2 ^ 32] := by
    have hsteps := toNat_iterate a c x n
    rw [heq] at hsteps
    exact hsteps.symm
  have hone : (a.toNat : Int) ≡ 1 [ZMOD 4] := by
    change (a.toNat : Int) % 4 = 1
    omega
  have hodd : (c.toNat : Int) % 2 = 1 := by omega
  have hdvd := two_pow_dvd_of_iterate_modEq hone hodd hback
  exact absurd (Nat.le_of_dvd hpos hdvd) (by omega)

end Wrapping

end LinearCongruential
end Foundation
end TWA
