import TWA.Foundation.Bytes

/-!
# Writers into a buffer of fixed length

A region on a buffer has an offset, and a length that grows with what is written
behind it.  A writer may fail, and then the region is as the failure left it; it
may also fault.  What is said of a writer is which symbols it appends when there
is room for all of them, and that it fails when there is not.
-/

namespace TWA
namespace Foundation

structure Region (symbol : Type) where
  buf : List symbol
  offset : Nat
  len : Nat
  deriving DecidableEq, Repr

namespace Region

variable {symbol : Type}

def Valid (w : Region symbol) : Prop :=
  w.offset + w.len ≤ w.buf.length

def HasRoom (n : Nat) (w : Region symbol) : Prop :=
  w.offset + w.len + n ≤ w.buf.length

def content (w : Region symbol) : List symbol :=
  (w.buf.take (w.offset + w.len)).drop w.offset

def append (xs : List symbol) (w : Region symbol) : Region symbol :=
  { w with buf := splice w.buf (w.offset + w.len) xs, len := w.len + xs.length }

variable {w : Region symbol} {xs ys : List symbol}

@[simp] theorem append_nil (w : Region symbol) : w.append [] = w := by
  unfold append
  rw [splice_nil]
  rfl

theorem HasRoom.valid {n : Nat} (h : w.HasRoom n) : w.Valid := by
  unfold HasRoom at h
  unfold Valid
  omega

theorem HasRoom.mono {m n : Nat} (h : w.HasRoom n) (hle : m ≤ n) : w.HasRoom m := by
  unfold HasRoom at h ⊢
  omega

theorem length_append (h : w.HasRoom xs.length) :
    (w.append xs).buf.length = w.buf.length :=
  length_splice h

theorem append_valid (h : w.HasRoom xs.length) : (w.append xs).Valid := by
  have hlen := length_append h
  unfold Valid
  rw [hlen]
  show w.offset + (w.len + xs.length) ≤ w.buf.length
  unfold HasRoom at h
  omega

theorem append_hasRoom (h : w.HasRoom xs.length) (n : Nat) :
    (w.append xs).HasRoom n <-> w.HasRoom (xs.length + n) := by
  unfold HasRoom
  rw [length_append h]
  show w.offset + (w.len + xs.length) + n ≤ _ <-> _
  constructor
  · intro hroom
    omega
  · intro hroom
    omega

theorem splice_splice_behind {buf : List symbol} {i : Nat} (h : i + xs.length ≤ buf.length)
    (ys : List symbol) :
    splice (splice buf i xs) (i + xs.length) ys = splice buf i (xs ++ ys) := by
  have hfront : (splice buf i xs).take (i + xs.length) = buf.take i ++ xs :=
    take_splice_filled h
  have hback : (splice buf i xs).drop (i + xs.length + ys.length) =
      buf.drop (i + xs.length + ys.length) :=
    drop_splice (Nat.le_add_right _ _) h
  calc splice (splice buf i xs) (i + xs.length) ys
      = buf.take i ++ xs ++ ys ++ buf.drop (i + xs.length + ys.length) := by
        rw [← hfront, ← hback]
        rfl
    _ = splice buf i (xs ++ ys) := by
        unfold splice
        rw [List.length_append, Nat.add_assoc, List.append_assoc (buf.take i)]

theorem append_append (h : w.HasRoom xs.length) (ys : List symbol) :
    (w.append xs).append ys = w.append (xs ++ ys) := by
  unfold append
  simp only [Region.mk.injEq, true_and]
  constructor
  · rw [← Nat.add_assoc]
    exact splice_splice_behind h ys
  · rw [List.length_append, Nat.add_assoc]

theorem content_append (h : w.HasRoom xs.length) :
    (w.append xs).content = w.content ++ xs := by
  have htake := take_splice_filled h
  unfold content append
  simp only
  rw [← Nat.add_assoc, htake, List.drop_append_of_le_length]
  rw [List.length_take]
  have hvalid := h.valid
  unfold Valid at hvalid
  omega

theorem splice_splice_front {buf hole fill : List symbol} {i : Nat}
    (h : i + (hole ++ xs).length ≤ buf.length) (hlen : fill.length = hole.length) :
    splice (splice buf i (hole ++ xs)) i fill = splice buf i (fill ++ xs) := by
  have hfront : (splice buf i (hole ++ xs)).take i = buf.take i :=
    take_splice (Nat.le_refl i) h
  have hback : (splice buf i (hole ++ xs)).drop (i + fill.length) =
      xs ++ buf.drop (i + (hole ++ xs).length) := by
    have hi : (buf.take i ++ hole).length = i + fill.length := by
      rw [List.length_append] at h
      rw [List.length_append, List.length_take]
      omega
    unfold splice
    rw [← List.append_assoc, List.append_assoc, ← hi, List.drop_left]
  calc splice (splice buf i (hole ++ xs)) i fill
      = buf.take i ++ fill ++ (xs ++ buf.drop (i + (hole ++ xs).length)) := by
        rw [← hfront, ← hback]
        rfl
    _ = splice buf i (fill ++ xs) := by
        unfold splice
        rw [List.length_append, List.length_append, hlen, ← List.append_assoc,
          List.append_assoc (buf.take i)]

end Region

/-- A failure, or a result, and the region behind it. -/
def Emitter (symbol err result : Type) : Type :=
  Region symbol -> Exec (Except err result × Region symbol)

namespace Emitter

open Exec

section Building

variable {symbol err err' alpha beta item : Type}

def succeed (a : alpha) : Emitter symbol err alpha :=
  fun w => .ok (.ok a, w)

def fail (e : err) : Emitter symbol err alpha :=
  fun w => .ok (.error e, w)

def andThen (p : Emitter symbol err alpha) (f : alpha -> Emitter symbol err beta) :
    Emitter symbol err beta := fun w => do
  match <- p w with
  | (.ok a, w) => f a w
  | (.error e, w) => pure (.error e, w)

instance : Monad (Emitter symbol err) where
  pure := succeed
  bind := andThen

def mapError (f : err -> err') (p : Emitter symbol err alpha) : Emitter symbol err' alpha :=
  fun w => do
    match <- p w with
    | (.ok a, w) => pure (.ok a, w)
    | (.error e, w) => pure (.error (f e), w)

def ofExcept (r : Except err alpha) : Emitter symbol err alpha :=
  fun w => .ok (r, w)

def position : Emitter symbol err Nat :=
  fun w => .ok (.ok w.len, w)

def each (f : item -> Emitter symbol err Unit) : List item -> Emitter symbol err Unit
  | [] => succeed ()
  | x :: xs => andThen (f x) (fun _ => each f xs)

/-- What is put down first is patched when it is known how much `body` has written. -/
def reserve (put body : Emitter symbol err Unit)
    (patch : Nat -> Nat -> Emitter symbol err Unit) : Emitter symbol err Unit := do
  let lenPos <- position
  put
  let start <- position
  body
  let stop <- position
  patch lenPos (stop - start)

end Building

/-- Into a region with room for them the writer appends just these symbols; into any other
it fails, and the buffer keeps its length. -/
structure Appends {symbol err : Type} (E : err -> Prop) (p : Emitter symbol err Unit)
    (xs : List symbol) : Prop where
  written : forall w : Region symbol, w.HasRoom xs.length -> p w = .ok (.ok (), w.append xs)
  refused : forall w : Region symbol, w.Valid -> ¬ w.HasRoom xs.length ->
    exists e w', p w = .ok (.error e, w') ∧ E e ∧ w'.buf.length = w.buf.length

namespace Appends

variable {symbol err err' item : Type} {E : err -> Prop} {p q : Emitter symbol err Unit}
  {xs ys : List symbol}

theorem succeed : Appends E (Emitter.succeed () : Emitter symbol err Unit) [] := by
  constructor
  · intro w _
    rw [Region.append_nil]
    rfl
  · intro w hvalid hroom
    exact absurd hvalid hroom

theorem andThen (hp : Appends E p xs) (hq : Appends E q ys) :
    Appends E (Emitter.andThen p (fun _ => q)) (xs ++ ys) := by
  constructor
  · intro w hroom
    rw [List.length_append] at hroom
    have hfront : w.HasRoom xs.length := hroom.mono (Nat.le_add_right _ _)
    have hback := (Region.append_hasRoom hfront ys.length).mpr hroom
    unfold Emitter.andThen
    rw [hp.written w hfront, ok_bind]
    simp only
    rw [hq.written _ hback, Region.append_append hfront]
  · intro w hvalid hroom
    rw [List.length_append] at hroom
    unfold Emitter.andThen
    by_cases hfront : w.HasRoom xs.length
    · have hback : ¬ (w.append xs).HasRoom ys.length := by
        intro hmore
        exact hroom ((Region.append_hasRoom hfront ys.length).mp hmore)
      rcases hq.refused _ (Region.append_valid hfront) hback with ⟨e, w', hrun, he, hlen⟩
      rw [hp.written w hfront, ok_bind]
      exact ⟨e, w', hrun, he, by rw [hlen, Region.length_append hfront]⟩
    · rcases hp.refused w hvalid hfront with ⟨e, w', hrun, he, hlen⟩
      rw [hrun, ok_bind]
      exact ⟨e, w', rfl, he, hlen⟩

theorem seq (hp : Appends E p xs) (hq : Appends E q ys) :
    Appends E (p >>= fun _ => q) (xs ++ ys) :=
  andThen hp hq

theorem mapError {E' : err' -> Prop} (hp : Appends E p xs) {f : err -> err'}
    (hf : forall e, E e -> E' (f e)) : Appends E' (Emitter.mapError f p) xs := by
  constructor
  · intro w hroom
    unfold Emitter.mapError
    rw [hp.written w hroom, ok_bind]
    rfl
  · intro w hvalid hroom
    rcases hp.refused w hvalid hroom with ⟨e, w', hrun, he, hlen⟩
    unfold Emitter.mapError
    rw [hrun, ok_bind]
    exact ⟨f e, w', rfl, hf e he, hlen⟩

theorem each {f : item -> Emitter symbol err Unit} {bytes : item -> List symbol}
    {items : List item} (h : forall x, x ∈ items -> Appends E (f x) (bytes x)) :
    Appends E (Emitter.each f items) (items.flatMap bytes) := by
  induction items with
  | nil => exact succeed
  | cons x rest ih =>
      rw [List.flatMap_cons]
      exact andThen (h x List.mem_cons_self) (ih (fun y hy => h y (List.mem_cons_of_mem x hy)))

theorem of_eq (hp : Appends E p xs) (h : xs = ys) : Appends E p ys := by
  rw [← h]
  exact hp

/-- A hole is left in front of what the body writes, and filled in behind it. -/
theorem reserve {put body : Emitter symbol err Unit} {hole : List symbol}
    {patch : Nat -> Nat -> Emitter symbol err Unit} {fill : Nat -> List symbol}
    (hput : Appends E put hole) (hbody : Appends E body xs)
    (hfill : forall n, (fill n).length = hole.length)
    (hpatch : forall (w : Region symbol) (pos n : Nat), w.Valid -> pos + hole.length ≤ w.len ->
      patch pos n w = .ok (.ok (), { w with buf := splice w.buf (w.offset + pos) (fill n) })) :
    Appends E (Emitter.reserve put body patch) (fill xs.length ++ xs) := by
  constructor
  · intro w hroom
    rw [List.length_append, hfill] at hroom
    have hfront : w.HasRoom hole.length := hroom.mono (Nat.le_add_right _ _)
    have hback := (Region.append_hasRoom hfront xs.length).mpr hroom
    have hrun : Emitter.reserve put body patch w =
        patch w.len xs.length (w.append (hole ++ xs)) := by
      have hcount : (w.append (hole ++ xs)).len - (w.append hole).len = xs.length := by
        show w.len + (hole ++ xs).length - (w.len + hole.length) = xs.length
        rw [List.length_append]
        omega
      simp only [Emitter.reserve, bind, Emitter.andThen, Emitter.position,
        hput.written w hfront, hbody.written _ hback, Region.append_append hfront, Except.bind,
        hcount]
    have hall : w.HasRoom (hole ++ xs).length := by
      rw [List.length_append]
      exact hroom
    rw [hrun, hpatch _ _ _ (Region.append_valid hall) ?_]
    · have hsplice := Region.splice_splice_front hall (hfill xs.length)
      unfold Region.append
      simp only [hsplice, List.length_append, hfill]
    · show w.len + hole.length ≤ w.len + (hole ++ xs).length
      rw [List.length_append]
      omega
  · intro w hvalid hroom
    rw [List.length_append, hfill] at hroom
    by_cases hfront : w.HasRoom hole.length
    · have hback : ¬ (w.append hole).HasRoom xs.length := by
        intro hmore
        exact hroom ((Region.append_hasRoom hfront xs.length).mp hmore)
      rcases hbody.refused _ (Region.append_valid hfront) hback with ⟨e, w', hrun, he, hlen⟩
      refine ⟨e, w', ?_, he, by rw [hlen, Region.length_append hfront]⟩
      simp only [Emitter.reserve, bind, Emitter.andThen, Emitter.position,
        hput.written w hfront, hrun, Except.bind]
      rfl
    · rcases hput.refused w hvalid hfront with ⟨e, w', hrun, he, hlen⟩
      refine ⟨e, w', ?_, he, hlen⟩
      simp only [Emitter.reserve, bind, Emitter.andThen, Emitter.position, hrun, Except.bind]
      rfl

end Appends
end Emitter
end Foundation
end TWA
