import Mathlib.Data.List.Rotate
import Mathlib.Data.Nat.ModEq
import Mathlib.Tactic.Common

/-!
# Ring buffers

A ring is a block of cells with a head, where the next element is written, and a
tail, where the next element is read.  One cell stays free, so equal indices mean
an empty ring.  Reading the cells from the tail to the head gives the queue that
the ring stands for; writing at the head appends to it and advancing the tail
removes its front.
-/

namespace TWA
namespace Foundation
namespace Ring

variable {alpha : Type}

def count (cap head tail : Nat) : Nat :=
  (head + cap - tail) % cap

def free (cap head tail : Nat) : Nat :=
  (tail + 2 * cap - head - 1) % cap

def contents (cells : List alpha) (head tail : Nat) : List alpha :=
  (cells.rotate tail).take (count cells.length head tail)

/-! ## Index arithmetic -/

section Indices

variable {cap head tail : Nat}

theorem count_of_le (hhead : head < cap) (h : tail ≤ head) :
    count cap head tail = head - tail := by
  unfold count
  rw [show head + cap - tail = head - tail + cap by omega,
    Nat.add_mod_right, Nat.mod_eq_of_lt (by omega)]

theorem count_of_lt (htail : tail < cap) (h : head < tail) :
    count cap head tail = head + cap - tail := by
  unfold count
  exact Nat.mod_eq_of_lt (by omega)

theorem count_lt (hhead : head < cap) : count cap head tail < cap :=
  Nat.mod_lt _ (by omega)

theorem free_eq (hhead : head < cap) (htail : tail < cap) :
    free cap head tail = cap - 1 - count cap head tail := by
  unfold free
  rcases Nat.lt_or_ge head tail with h | h
  · rw [count_of_lt htail h,
      show tail + 2 * cap - head - 1 = tail - head - 1 + cap + cap by omega,
      Nat.add_mod_right, Nat.add_mod_right, Nat.mod_eq_of_lt (by omega)]
    omega
  · rw [count_of_le hhead h,
      show tail + 2 * cap - head - 1 = tail + cap - head - 1 + cap by omega,
      Nat.add_mod_right, Nat.mod_eq_of_lt (by omega)]
    omega

theorem count_self (hhead : head < cap) : count cap head head = 0 := by
  rw [count_of_le hhead (Nat.le_refl _), Nat.sub_self]

theorem succ_mod_of_lt (h : head + 1 < cap) : (head + 1) % cap = head + 1 :=
  Nat.mod_eq_of_lt h

theorem succ_mod_of_eq (h : head + 1 = cap) : (head + 1) % cap = 0 := by
  rw [h, Nat.mod_self]

theorem count_head_succ (hhead : head < cap) (htail : tail < cap)
    (hroom : count cap head tail + 1 < cap) :
    count cap ((head + 1) % cap) tail = count cap head tail + 1 := by
  rcases Nat.lt_or_ge head tail with h | h
  · rw [count_of_lt htail h] at hroom ⊢
    rw [succ_mod_of_lt (by omega), count_of_lt htail (by omega)]
    omega
  · rw [count_of_le hhead h] at hroom ⊢
    rcases Nat.lt_or_ge (head + 1) cap with hwrap | hwrap
    · rw [succ_mod_of_lt hwrap, count_of_le hwrap (by omega)]
      omega
    · rw [succ_mod_of_eq (by omega), count_of_lt htail (by omega)]
      omega

theorem count_tail_succ (hhead : head < cap) (htail : tail < cap)
    (hsome : 0 < count cap head tail) :
    count cap head ((tail + 1) % cap) = count cap head tail - 1 := by
  rcases Nat.lt_or_ge head tail with h | h
  · rw [count_of_lt htail h]
    rcases Nat.lt_or_ge (tail + 1) cap with hwrap | hwrap
    · rw [succ_mod_of_lt hwrap, count_of_lt hwrap (by omega)]
      omega
    · rw [succ_mod_of_eq (by omega), count_of_le hhead (by omega)]
      omega
  · rw [count_of_le hhead h] at hsome ⊢
    rw [succ_mod_of_lt (by omega), count_of_le hhead (by omega)]
    omega

theorem tail_add_count (hhead : head < cap) (htail : tail < cap) :
    (tail + count cap head tail) % cap = head := by
  rcases Nat.lt_or_ge head tail with h | h
  · rw [count_of_lt htail h,
      show tail + (head + cap - tail) = head + cap by omega,
      Nat.add_mod_right, Nat.mod_eq_of_lt hhead]
  · rw [count_of_le hhead h, show tail + (head - tail) = head by omega,
      Nat.mod_eq_of_lt hhead]

theorem count_tail_add (htail : tail < cap) {k : Nat} (hk : k < cap) :
    count cap ((tail + k) % cap) tail = k := by
  rcases Nat.lt_or_ge (tail + k) cap with h | h
  · rw [Nat.mod_eq_of_lt h, count_of_le h (Nat.le_add_right _ _)]
    omega
  · rw [Nat.mod_eq_sub_mod h, Nat.mod_eq_of_lt (by omega),
      count_of_lt htail (by omega)]
    omega

theorem count_sub_add (hhead : head < cap) (htail : tail < cap) {k : Nat}
    (hk : k ≤ count cap head tail) :
    count cap head ((tail + k) % cap) = count cap head tail - k := by
  induction k with
  | zero => rw [Nat.add_zero, Nat.mod_eq_of_lt htail, Nat.sub_zero]
  | succ k ih =>
      have hmod : (tail + k) % cap < cap := Nat.mod_lt _ (by omega)
      have hk' := ih (by omega)
      have hsucc := count_tail_succ hhead hmod (by omega)
      rw [Nat.mod_add_mod] at hsucc
      rw [← Nat.add_assoc, hsucc, hk']
      omega

theorem tail_eq_add (hhead : head < cap) (htail : tail < cap) {later : Nat}
    (hlater : later < cap)
    (hle : count cap head later ≤ count cap head tail) :
    later = (tail + (count cap head tail - count cap head later)) % cap := by
  have hmod : Nat.ModEq cap (later + count cap head later)
      (tail + (count cap head tail - count cap head later) +
        count cap head later) := by
    rw [Nat.add_assoc, Nat.sub_add_cancel hle]
    exact (tail_add_count hhead hlater).trans (tail_add_count hhead htail).symm
  have hcancel := Nat.ModEq.add_right_cancel' _ hmod
  rw [← hcancel, Nat.mod_eq_of_lt hlater]

theorem tail_add_ne_head (hhead : head < cap) (htail : tail < cap) {k : Nat}
    (hk : k < count cap head tail) : (tail + k) % cap ≠ head := by
  intro heq
  have hcount : count cap head tail < cap := count_lt hhead
  have hmod : Nat.ModEq cap (tail + k) (tail + count cap head tail) :=
    heq.trans (tail_add_count hhead htail).symm
  have hkc : k = count cap head tail :=
    Nat.ModEq.eq_of_lt_of_lt (Nat.ModEq.add_left_cancel' tail hmod)
      (by omega) hcount
  omega

end Indices

/-! ## The queue -/

section Contents

variable {cells : List alpha} {head tail : Nat}

theorem length_contents (hhead : head < cells.length) :
    (contents cells head tail).length = count cells.length head tail := by
  unfold contents
  rw [List.length_take, List.length_rotate]
  exact Nat.min_eq_left (count_lt hhead).le

theorem contents_empty (hhead : head < cells.length) :
    contents cells head head = [] := by
  unfold contents
  rw [count_self hhead, List.take_zero]

theorem getElem?_contents {k : Nat}
    (hk : k < count cells.length head tail) (hkc : k < cells.length) :
    (contents cells head tail)[k]? = cells[(tail + k) % cells.length]? := by
  unfold contents
  rw [List.getElem?_take_of_lt hk, List.getElem?_rotate hkc, Nat.add_comm]

theorem contents_push (hhead : head < cells.length)
    (htail : tail < cells.length)
    (hroom : count cells.length head tail + 1 < cells.length) (x : alpha) :
    contents (cells.set head x) ((head + 1) % cells.length) tail =
      contents cells head tail ++ [x] := by
  have hsucc := count_head_succ hhead htail hroom
  have hlen : (contents cells head tail).length =
      count cells.length head tail := length_contents hhead
  have hhead' : (head + 1) % cells.length < cells.length :=
    Nat.mod_lt _ (by omega)
  apply List.ext_getElem?
  intro k
  rcases Nat.lt_trichotomy k (count cells.length head tail) with h | h | h
  · have hne : head ≠ (tail + k) % cells.length :=
      (tail_add_ne_head hhead htail h).symm
    rw [getElem?_contents (by simp [hsucc]; omega)
        (by simp; omega), List.length_set, List.getElem?_set_ne hne,
      List.getElem?_append_left (by omega),
      getElem?_contents h (by omega)]
  · subst h
    rw [getElem?_contents (by simp [hsucc])
        (by simp; omega), List.length_set, tail_add_count hhead htail,
      List.getElem?_set_self hhead, List.getElem?_append_right (by omega), hlen,
      Nat.sub_self]
    rfl
  · rw [List.getElem?_eq_none, List.getElem?_eq_none]
    · simp [hlen]
      omega
    · rw [length_contents (by simpa using hhead'), List.length_set, hsucc]
      omega

/-- Reading the tail cell gives the front, and advancing the tail removes it. -/
theorem contents_pop (hhead : head < cells.length)
    (htail : tail < cells.length)
    (hsome : 0 < count cells.length head tail) :
    exists x, cells[tail]? = some x ∧
      contents cells head tail =
        x :: contents cells head ((tail + 1) % cells.length) := by
  have hsucc := count_tail_succ hhead htail hsome
  have hlt : count cells.length head tail < cells.length := count_lt hhead
  have htail' : (tail + 1) % cells.length < cells.length :=
    Nat.mod_lt _ (by omega)
  refine ⟨cells[tail], List.getElem?_eq_getElem htail, ?_⟩
  apply List.ext_getElem?
  intro k
  cases k with
  | zero =>
      rw [getElem?_contents hsome (by omega), Nat.add_zero,
        Nat.mod_eq_of_lt htail, List.getElem?_eq_getElem htail]
      rfl
  | succ k =>
      rw [List.getElem?_cons_succ]
      rcases Nat.lt_or_ge (k + 1) (count cells.length head tail) with h | h
      · rw [getElem?_contents h (by omega),
          getElem?_contents (by omega) (by omega), Nat.mod_add_mod]
        congr 2
        omega
      · rw [List.getElem?_eq_none, List.getElem?_eq_none]
        · rw [length_contents hhead]
          omega
        · rw [length_contents hhead]
          omega

/-- Splitting the queue at a cell in use. -/
theorem contents_take (htail : tail < cells.length) {k : Nat}
    (hhead : head < cells.length)
    (hk : k ≤ count cells.length head tail) :
    contents cells ((tail + k) % cells.length) tail =
      (contents cells head tail).take k := by
  have hlt : count cells.length head tail < cells.length := count_lt hhead
  unfold contents
  rw [count_tail_add htail (by omega), List.take_take, Nat.min_eq_left hk]

theorem contents_drop (htail : tail < cells.length) {k : Nat}
    (hhead : head < cells.length)
    (hk : k ≤ count cells.length head tail) :
    contents cells head ((tail + k) % cells.length) =
      (contents cells head tail).drop k := by
  have hlt : count cells.length head tail < cells.length := count_lt hhead
  have hlen : k ≤ (cells.rotate tail).length := by
    rw [List.length_rotate]
    omega
  unfold contents
  rw [count_sub_add hhead htail hk, List.rotate_mod, ← List.rotate_rotate,
    List.rotate_eq_drop_append_take hlen,
    List.take_append_of_le_length (by rw [List.length_drop, List.length_rotate]; omega),
    List.drop_take]

theorem contents_appended {cells' : List alpha} {head' : Nat} {xs : List alpha}
    (hhead : head < cells.length) (htail : tail < cells.length)
    (hhead' : head' < cells'.length) (hcap : cells'.length = cells.length)
    (h : contents cells' head' tail = contents cells head tail ++ xs) :
    contents cells' head' head = xs := by
  have hlen := congrArg List.length h
  rw [List.length_append, length_contents hhead', length_contents hhead,
    hcap] at hlen
  have hle : count cells.length head tail ≤ count cells'.length head' tail := by
    rw [hcap]
    omega
  have hsplit := contents_drop (by rw [hcap]; exact htail) hhead' hle
  rw [hcap, tail_add_count hhead htail, h] at hsplit
  rw [hsplit, ← length_contents hhead, List.drop_left]

theorem contents_removed {tail' : Nat} {xs : List alpha}
    (hhead : head < cells.length) (htail : tail < cells.length)
    (htail' : tail' < cells.length)
    (h : contents cells head tail = xs ++ contents cells head tail') :
    contents cells tail' tail = xs := by
  have hlen := congrArg List.length h
  rw [List.length_append, length_contents hhead, length_contents hhead] at hlen
  have hwhere := tail_eq_add hhead htail htail' (by omega)
  have hsplit := contents_take htail hhead
    (k := count cells.length head tail - count cells.length head tail')
    (Nat.sub_le _ _)
  rw [← hwhere, h] at hsplit
  rw [hsplit, hlen, Nat.add_sub_cancel, List.take_left]

end Contents

end Ring

/-!
## Bounded queues

What a ring stands for.
-/

structure BoundedQueue (alpha : Type) (bound : Nat) where
  items : List alpha
  length_le : items.length ≤ bound

namespace BoundedQueue

variable {alpha : Type} {bound : Nat}

def empty : BoundedQueue alpha bound :=
  ⟨[], Nat.zero_le bound⟩

def room (q : BoundedQueue alpha bound) : Nat :=
  bound - q.items.length

def push (q : BoundedQueue alpha bound) (xs : List alpha) (h : xs.length ≤ q.room) :
    BoundedQueue alpha bound where
  items := q.items ++ xs
  length_le := by
    have hle := q.length_le
    unfold room at h
    rw [List.length_append]
    omega

def pop (q : BoundedQueue alpha bound) (n : Nat) : BoundedQueue alpha bound where
  items := q.items.drop n
  length_le := by
    have hle := q.length_le
    rw [List.length_drop]
    omega

end BoundedQueue
end Foundation
end TWA
