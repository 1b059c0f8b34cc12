import Mathlib.Tactic.Common

/-!
# Executions that may fault

Slice indexing, integer subtraction, remainders and string slicing abort the
program when their operands are out of range, and a loop may run for ever.  An
`Exec` is the outcome of a piece of such code: the value it returns, or the
fault it ends with.  Loops are written with fuel, and running out of fuel is the
fault `diverges`.
-/

namespace TWA
namespace Foundation

inductive Fault where
  | indexOutOfRange
  | arithmeticOverflow
  | divisionByZero
  | splitCharacter
  | unwrapNone
  | diverges
  deriving DecidableEq, Repr

abbrev Exec (alpha : Type) := Except Fault alpha

namespace Exec

variable {alpha beta : Type}

@[simp] theorem ok_bind (a : alpha) (f : alpha -> Exec beta) :
    ((Except.ok a : Exec alpha) >>= f) = f a := rfl

@[simp] theorem error_bind (e : Fault) (f : alpha -> Exec beta) :
    ((Except.error e : Exec alpha) >>= f) = Except.error e := rfl

@[simp] theorem pure_eq_ok (a : alpha) :
    (pure a : Exec alpha) = Except.ok a := rfl

@[simp] theorem map_ok (f : alpha -> beta) (a : alpha) :
    (f <$> (Except.ok a : Exec alpha)) = Except.ok (f a) := rfl

theorem bind_eq_ok {x : Exec alpha} {f : alpha -> Exec beta} {b : beta} :
    (x >>= f) = Except.ok b <-> exists a, x = Except.ok a ∧ f a = Except.ok b := by
  cases x with
  | error e => simp
  | ok a => simp

theorem ok_ite {p : Prop} [Decidable p] {x y : Exec alpha}
    (hx : exists a, x = .ok a) (hy : exists a, y = .ok a) :
    exists a, (if p then x else y) = .ok a := by
  by_cases hp : p
  · rw [if_pos hp]
    exact hx
  · rw [if_neg hp]
    exact hy

theorem ite_eq_ok {p : Prop} [Decidable p] {x y : Exec alpha} {a b : alpha}
    (hx : x = .ok a) (hy : y = .ok b) :
    (if p then x else y) = .ok (if p then a else b) := by
  rw [hx, hy]
  split <;> rfl

def attempt (x : Exec (Option alpha)) (f : alpha -> Exec (Option beta)) :
    Exec (Option beta) := do
  match <- x with
  | some a => f a
  | none => pure none

theorem attempt_some {x : Exec (Option alpha)} {a : alpha}
    (h : x = .ok (some a)) (f : alpha -> Exec (Option beta)) :
    attempt x f = f a := by
  rw [h]
  rfl

theorem attempt_none {x : Exec (Option alpha)} (h : x = .ok none)
    (f : alpha -> Exec (Option beta)) : attempt x f = .ok none := by
  rw [h]
  rfl

/-- The code ends without a fault, and a result it finds satisfies `P`. -/
def Yields (x : Exec (Option alpha)) (P : alpha -> Prop) : Prop :=
  exists r, x = .ok r ∧ forall a, r = some a -> P a

namespace Yields

variable {P : alpha -> Prop} {Q : beta -> Prop}

theorem none : Yields (pure Option.none) P :=
  ⟨Option.none, rfl, fun _ heq => by cases heq⟩

theorem some {a : alpha} (h : P a) : Yields (pure (Option.some a)) P := by
  refine ⟨Option.some a, rfl, ?_⟩
  intro b heq
  cases heq
  exact h

theorem mono {x : Exec (Option alpha)} {P' : alpha -> Prop}
    (hx : Yields x P) (h : forall a, P a -> P' a) : Yields x P' := by
  rcases hx with ⟨r, hr, hP⟩
  exact ⟨r, hr, fun a heq => h a (hP a heq)⟩

theorem attempt {x : Exec (Option alpha)} {f : alpha -> Exec (Option beta)}
    (hx : Yields x P) (hf : forall a, P a -> Yields (f a) Q) :
    Yields (Exec.attempt x f) Q := by
  rcases hx with ⟨r, hr, hP⟩
  cases r with
  | none =>
      rw [attempt_none hr]
      exact none
  | some a =>
      rw [attempt_some hr]
      exact hf a (hP a rfl)

end Yields

/-!
## Checked primitives

These are the operations of the host language that abort on bad operands.
-/

def index (xs : List alpha) (i : Nat) : Exec alpha :=
  match xs[i]? with
  | some x => .ok x
  | none => .error .indexOutOfRange

def store (xs : List alpha) (i : Nat) (x : alpha) : Exec (List alpha) :=
  if i < xs.length then .ok (xs.set i x) else .error .indexOutOfRange

def slice (xs : List alpha) (a b : Nat) : Exec (List alpha) :=
  if a ≤ b ∧ b ≤ xs.length then .ok ((xs.take b).drop a)
  else .error .indexOutOfRange

def sub (a b : Nat) : Exec Nat :=
  if b ≤ a then .ok (a - b) else .error .arithmeticOverflow

def rem (a m : Nat) : Exec Nat :=
  if m = 0 then .error .divisionByZero else .ok (a % m)

theorem index_eq_ok {xs : List alpha} {i : Nat} {x : alpha} :
    index xs i = .ok x <-> xs[i]? = some x := by
  unfold index
  cases h : xs[i]? with
  | none => simp
  | some y => simp

theorem index_of_getElem? {xs : List alpha} {i : Nat} {x : alpha}
    (h : xs[i]? = some x) : index xs i = .ok x :=
  index_eq_ok.mpr h

theorem index_of_lt {xs : List alpha} {i : Nat} (h : i < xs.length) :
    index xs i = .ok xs[i] :=
  index_of_getElem? (List.getElem?_eq_getElem h)

theorem store_of_lt {xs : List alpha} {i : Nat} (x : alpha)
    (h : i < xs.length) : store xs i x = .ok (xs.set i x) := by
  simp [store, h]

theorem length_store {xs ys : List alpha} {i : Nat} {x : alpha}
    (h : store xs i x = .ok ys) : ys.length = xs.length := by
  unfold store at h
  split at h
  · cases h
    exact List.length_set
  · cases h

theorem slice_of_le {xs : List alpha} {a b : Nat} (hab : a ≤ b)
    (hb : b ≤ xs.length) : slice xs a b = .ok ((xs.take b).drop a) := by
  simp [slice, hab, hb]

theorem sub_of_le {a b : Nat} (h : b ≤ a) : sub a b = .ok (a - b) := by
  simp [sub, h]

theorem sub_eq_ok {a b c : Nat} : sub a b = .ok c <-> b ≤ a ∧ c = a - b := by
  unfold sub
  split
  · rename_i hle
    simp [hle, eq_comm]
  · rename_i hlt
    simp [hlt]

theorem rem_of_pos {a m : Nat} (h : 0 < m) : rem a m = .ok (a % m) := by
  unfold rem
  rw [if_neg (by omega)]

/-!
## Scanning forward

The loop `while i < xs.len() && p(xs[i]) { i += 1 }` is the most common one
in scanners.  It stops exactly after the longest run of elements satisfying
`p`.
-/

def advanceLoop (p : alpha -> Bool) (xs : List alpha) : Nat -> Nat -> Exec Nat
  | 0, _ => .error .diverges
  | fuel + 1, i =>
      if i < xs.length then do
        let x <- index xs i
        if p x then advanceLoop p xs fuel (i + 1) else pure i
      else
        pure i

def advanceWhile (p : alpha -> Bool) (xs : List alpha) (i : Nat) : Exec Nat :=
  advanceLoop p xs (xs.length - i + 1) i

theorem advanceLoop_eq (p : alpha -> Bool) (xs : List alpha) (fuel i : Nat)
    (hfuel : xs.length < fuel + i) (hi : i ≤ xs.length) :
    advanceLoop p xs fuel i =
      .ok (i + ((xs.drop i).takeWhile p).length) := by
  induction fuel generalizing i with
  | zero => omega
  | succ fuel ih =>
      unfold advanceLoop
      by_cases hlt : i < xs.length
      · rw [if_pos hlt, index_of_lt hlt, ok_bind,
          List.drop_eq_getElem_cons hlt, List.takeWhile_cons]
        by_cases hp : p xs[i]
        · rw [if_pos hp, if_pos hp, ih (i + 1) (by omega) hlt,
            List.length_cons]
          congr 1
          omega
        · rw [if_neg hp, if_neg hp]
          rfl
      · rw [if_neg hlt, List.drop_eq_nil_of_le (by omega)]
        rfl

theorem advanceWhile_eq (p : alpha -> Bool) (xs : List alpha) {i : Nat}
    (hi : i ≤ xs.length) :
    advanceWhile p xs i = .ok (i + ((xs.drop i).takeWhile p).length) :=
  advanceLoop_eq p xs _ i (by omega) hi

/-!
## Positions

A scanner holds a position, and a grammar speaks of what is left from there on.
-/

/-- From position `i` on, `rest` is left of `xs`. -/
structure Remains (xs : List alpha) (i : Nat) (rest : List alpha) : Prop where
  le : i ≤ xs.length
  drop_eq : xs.drop i = rest

namespace Remains

variable {xs tok rest : List alpha} {x : alpha} {i : Nat}

theorem start (xs : List alpha) : Remains xs 0 xs :=
  ⟨Nat.zero_le _, rfl⟩

theorem length_eq (h : Remains xs i rest) : xs.length = i + rest.length := by
  have hlen := congrArg List.length h.drop_eq
  rw [List.length_drop] at hlen
  have hle := h.le
  omega

theorem skip (h : Remains xs i (tok ++ rest)) :
    Remains xs (i + tok.length) rest := by
  refine ⟨?_, ?_⟩
  · rw [h.length_eq, List.length_append]
    omega
  · rw [← List.drop_drop, h.drop_eq, List.drop_left]

theorem next (h : Remains xs i (x :: rest)) : Remains xs (i + 1) rest := by
  have hone : Remains xs i ([x] ++ rest) := h
  exact hone.skip

theorem lt (h : Remains xs i (x :: rest)) : i < xs.length := by
  rw [h.length_eq, List.length_cons]
  omega

theorem getElem?_eq (h : Remains xs i (x :: rest)) : xs[i]? = some x := by
  rw [← List.head?_drop, h.drop_eq]
  rfl

theorem index (h : Remains xs i (x :: rest)) : Exec.index xs i = .ok x :=
  index_of_getElem? h.getElem?_eq

theorem slice (h : Remains xs i (tok ++ rest)) :
    Exec.slice xs i (i + tok.length) = .ok tok := by
  rw [slice_of_le (Nat.le_add_right _ _) h.skip.le, List.drop_take, h.drop_eq,
    Nat.add_sub_cancel_left, List.take_left]

theorem advanceWhile {p : alpha -> Bool} (h : Remains xs i (tok ++ rest))
    (htok : forall x, x ∈ tok -> p x = true)
    (hrest : forall x, rest.head? = some x -> p x = false) :
    Exec.advanceWhile p xs i = .ok (i + tok.length) := by
  have hstop : rest.takeWhile p = [] := by
    cases rest with
    | nil => rfl
    | cons x rest =>
        rw [List.takeWhile_cons_of_neg]
        rw [hrest x rfl]
        exact Bool.false_ne_true
  rw [advanceWhile_eq p xs h.le, h.drop_eq, List.takeWhile_append_of_pos htok,
    hstop, List.append_nil]

end Remains

end Exec
end Foundation
end TWA
