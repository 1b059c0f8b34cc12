import Mathlib.Order.Basic

/-!
# Running counters

A counter of 32 bits that follows a clock passes every distance to every value
again and again, if it is read often enough.  A sequence of states that only
waits for such distances, and otherwise comes closer to its end, ends.
-/

namespace TWA
namespace Foundation

/-- The counter is read off a clock that never stops or goes back, and from one reading to
the next it leaves out less than a round but for `d`. -/
def RunsOn (d : Nat) (counter : Nat -> UInt32) : Prop :=
  exists clock : Nat -> Nat,
    (forall n, counter n = UInt32.ofNat (clock n)) ∧
      (forall n, clock n ≤ clock (n + 1)) ∧
      (forall n, clock (n + 1) + d ≤ clock n + UInt32.size) ∧
      forall bound, exists n, bound ≤ clock n

theorem distance_of_round {since : UInt32} {t d k : Nat}
    (hlow : since.toNat + d + UInt32.size * k ≤ t)
    (hhigh : t < since.toNat + UInt32.size * k + UInt32.size) :
    d ≤ (UInt32.ofNat t - since).toNat := by
  have hsince := since.toNat_lt
  have hsize : UInt32.size = 4294967296 := rfl
  rw [UInt32.toNat_sub, UInt32.toNat_ofNat']
  rw [hsize] at hlow hhigh
  omega

/-- However far a value lies back, some later reading is `d` past it. -/
theorem RunsOn.passes {d : Nat} {counter : Nat -> UInt32} (h : RunsOn d counter)
    (since : UInt32) (n : Nat) : exists m, n ≤ m ∧ d ≤ (counter m - since).toNat := by
  rcases h with ⟨clock, hcounter, hmono, hgap, hunbounded⟩
  have hle : forall a k, clock a ≤ clock (a + k) := by
    intro a k
    induction k with
    | zero => exact Nat.le_refl _
    | succ k ih => exact Nat.le_trans ih (hmono (a + k))
  -- The first reading at or after the goal is less than a round past it.
  have hgoal : exists k, clock n < since.toNat + d + UInt32.size * k := by
    refine ⟨clock n + 1, ?_⟩
    have hsize : UInt32.size = 4294967296 := rfl
    rw [hsize]
    omega
  rcases hgoal with ⟨k, hk⟩
  have hreached : exists j, since.toNat + d + UInt32.size * k ≤ clock (n + j) := by
    rcases hunbounded (since.toNat + d + UInt32.size * k) with ⟨m, hm⟩
    have hafter : n ≤ m := by
      apply Nat.le_of_not_lt
      intro hbefore
      have hearlier := hle m (n - m)
      rw [Nat.add_sub_cancel' (Nat.le_of_lt hbefore)] at hearlier
      omega
    exact ⟨m - n, by rw [Nat.add_sub_cancel' hafter]; exact hm⟩
  have hfirst : exists j, since.toNat + d + UInt32.size * k ≤ clock (n + j + 1) ∧
      clock (n + j) < since.toNat + d + UInt32.size * k := by
    rcases hreached with ⟨j, hj⟩
    induction j with
    | zero => exact absurd hk (Nat.not_lt.mpr hj)
    | succ j ih =>
        by_cases hearlier : since.toNat + d + UInt32.size * k ≤ clock (n + j)
        · exact ih hearlier
        · exact ⟨j, hj, Nat.lt_of_not_le hearlier⟩
  rcases hfirst with ⟨j, hat, hbefore⟩
  refine ⟨n + j + 1, by omega, ?_⟩
  have hstep := hgap (n + j)
  rw [hcounter]
  exact distance_of_round hat (by omega)

section Sequences

variable {state : Type} {f : Nat -> state} {rank : state -> Nat} (due : Nat -> state -> Prop)

/-- While a sequence waits, nothing happens to the state; when something is due, the rank
falls. -/
theorem rank_falls
    (hstep : forall n, rank (f n) ≠ 0 ->
      (f (n + 1) = f n ∧ ¬due n (f n)) ∨ rank (f (n + 1)) < rank (f n))
    (hfair : forall n s, exists m, n ≤ m ∧ due m s) (n : Nat) (hn : rank (f n) ≠ 0) :
    exists m, rank (f m) < rank (f n) := by
  rcases hfair n (f n) with ⟨m, hle, hdue⟩
  rcases Nat.exists_eq_add_of_le hle with ⟨k, hk⟩
  have hwaits : forall k, (exists m, rank (f m) < rank (f n)) ∨ f (n + k) = f n := by
    intro k
    induction k with
    | zero => exact Or.inr rfl
    | succ k ih =>
        rcases ih with hfell | hsame
        · exact Or.inl hfell
        · rcases hstep (n + k) (by rw [hsame]; exact hn) with ⟨hwait, _⟩ | hfalls
          · exact Or.inr (hwait.trans hsame)
          · rw [hsame] at hfalls
            exact Or.inl ⟨n + k + 1, hfalls⟩
  rcases hwaits k with hfell | hsame
  · exact hfell
  · rw [← hk] at hsame
    rcases hstep m (by rw [hsame]; exact hn) with ⟨_, hnot⟩ | hfalls
    · rw [hsame] at hnot
      exact absurd hdue hnot
    · rw [hsame] at hfalls
      exact ⟨m + 1, hfalls⟩

theorem rank_ends
    (hstep : forall n, rank (f n) ≠ 0 ->
      (f (n + 1) = f n ∧ ¬due n (f n)) ∨ rank (f (n + 1)) < rank (f n))
    (hfair : forall n s, exists m, n ≤ m ∧ due m s)
    (hstable : forall n, rank (f n) = 0 -> rank (f (n + 1)) = 0) :
    exists N, forall n, N ≤ n -> rank (f n) = 0 := by
  have hzero : forall r n, rank (f n) = r -> exists N, rank (f N) = 0 := by
    intro r
    induction r using Nat.strongRecOn with
    | ind r ih =>
        intro n hn
        by_cases hr : r = 0
        · exact ⟨n, hn.trans hr⟩
        · rcases rank_falls due hstep hfair n (by rw [hn]; exact hr) with ⟨m, hm⟩
          rw [hn] at hm
          exact ih _ hm m rfl
  rcases hzero _ 0 rfl with ⟨N, hN⟩
  refine ⟨N, fun n hn => ?_⟩
  induction hn with
  | refl => exact hN
  | step _ ih => exact hstable _ ih

end Sequences

end Foundation
end TWA
