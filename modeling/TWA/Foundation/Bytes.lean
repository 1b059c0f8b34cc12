import TWA.Foundation.Exec

/-!
# Writing into a buffer

A buffer is a list of fixed length.  Writing replaces a stretch of it and
leaves the rest alone.
-/

namespace TWA
namespace Foundation

variable {alpha : Type}

/-- `xs` with `ys` written at position `i`. -/
def splice (xs : List alpha) (i : Nat) (ys : List alpha) : List alpha :=
  xs.take i ++ ys ++ xs.drop (i + ys.length)

section Splice

variable {xs ys : List alpha} {i j : Nat}

theorem length_splice (h : i + ys.length ≤ xs.length) :
    (splice xs i ys).length = xs.length := by
  unfold splice
  simp only [List.length_append, List.length_take, List.length_drop]
  omega

@[simp] theorem splice_nil (xs : List alpha) (i : Nat) : splice xs i [] = xs := by
  simp [splice]

theorem take_splice (hj : j ≤ i) (h : i + ys.length ≤ xs.length) :
    (splice xs i ys).take j = xs.take j := by
  unfold splice
  rw [List.append_assoc, List.take_append_of_le_length, List.take_take,
    Nat.min_eq_left hj]
  rw [List.length_take]
  omega

theorem drop_take_splice {d p : Nat} (h : d + p + ys.length ≤ xs.length) :
    ((splice xs (d + p) ys).drop d).take (p + ys.length) =
      (xs.drop d).take p ++ ys := by
  have hfront : (xs.take (d + p)).drop d = (xs.drop d).take p := by
    rw [List.drop_take]
    congr 1
    omega
  have hlen : (xs.take (d + p)).length = d + p := by
    rw [List.length_take]
    omega
  unfold splice
  rw [List.append_assoc, List.drop_append_of_le_length (by omega), hfront,
    ← List.append_assoc, List.take_left']
  rw [List.length_append, List.length_take, List.length_drop]
  omega

theorem take_splice_filled (h : i + ys.length ≤ xs.length) :
    (splice xs i ys).take (i + ys.length) = xs.take i ++ ys := by
  have hroom : 0 + i + ys.length ≤ xs.length := by omega
  simpa using drop_take_splice hroom

theorem read_splice {k : Nat} (hk : k ≤ ys.length) (hi : i ≤ xs.length) :
    ((splice xs i ys).take (i + k)).drop i = ys.take k := by
  have hlen : (xs.take i).length = i := by
    rw [List.length_take]
    omega
  unfold splice
  rw [List.drop_take, Nat.add_sub_cancel_left, List.append_assoc, List.drop_append, hlen,
    Nat.sub_self, List.drop_zero, List.drop_eq_nil_of_le (by omega), List.nil_append,
    List.take_append_of_le_length hk]

theorem drop_splice (hj : i + ys.length ≤ j) (h : i + ys.length ≤ xs.length) :
    (splice xs i ys).drop j = xs.drop j := by
  have hlen : (xs.take i ++ ys).length = i + ys.length := by
    rw [List.length_append, List.length_take]
    omega
  unfold splice
  rw [List.drop_append, hlen, List.drop_eq_nil_of_le (by omega), List.nil_append,
    List.drop_drop]
  congr 1
  omega

end Splice

end Foundation
end TWA
