import TWA.AudioOutput.Termination
import TWA.Foundation.Histories

/-!
# Operations that fault

With a ring, every operation keeps the indices in range and none faults.  Without
one, feeding and pumping do nothing, but the level of the ring is still computed
modulo its size.  So an order of operations is safe exactly when a ring was
allocated or no operation of it reads the level.
-/

namespace TWA

open Foundation
open Foundation.Exec

namespace AudioOutput

def begin (a : AudioOutput) : Bool :=
  !a.ring.isEmpty && a.stream.isSome

inductive Operation where
  | begin
  | beginStream (inputRate : UInt32)
  | feed (mono16 : List UInt8)
  | finishStream
  | stopPlayback
  | setVolume (v : Int)
  | tick (inp : TickInput)
  | buffered
  | isActive
  deriving DecidableEq, Repr

section Operations

variable (rnd : Rat -> Rat)

def operate : Operation -> AudioOutput -> Exec AudioOutput
  | .begin, a => do
      let _ := a.begin
      pure a
  | .beginStream inputRate, a => pure (beginStream inputRate a)
  | .feed mono16, a => do
      let (_, a) <- feed rnd mono16 a
      pure a
  | .finishStream, a => pure (finishStream a)
  | .stopPlayback, a => pure (stopPlayback a)
  | .setVolume v, a => pure (setVolume v a)
  | .tick inp, a => do
      let (_, _, a) <- tick rnd inp a
      pure a
  | .buffered, a => do
      let _ <- a.buffered
      pure a
  | .isActive, a => do
      let _ <- a.isActive
      pure a

def operateAll : List Operation -> AudioOutput -> Exec AudioOutput
  | [], a => pure a
  | op :: ops, a => do
      let a <- operate rnd op a
      operateAll ops a

end Operations

/-!
## What an order of operations reads
-/

/-- The last call that opened or stopped a stream opened one. -/
def StreamOpened (ops : List Operation) : Prop :=
  HappenedSince (fun _ op => exists rate, op = Operation.beginStream rate)
    (fun op => op ≠ Operation.stopPlayback) ops

def ReadsLevel (before : List Operation) (op : Operation) : Prop :=
  op = Operation.buffered ∨ (op = Operation.isActive ∧ ¬ StreamOpened before)

def Allocated (reserve : Nat -> Bool) : Prop :=
  exists n, n ∈ ringCapCandidates ∧ reserve n = true

theorem new_ring_eq_nil_iff (reserve : Nat -> Bool) :
    (new reserve).ring = [] <-> ¬ Allocated reserve := by
  have hring : (new reserve).ring =
      List.replicate ((ringCapCandidates.find? reserve).getD 0) 0 := rfl
  rw [hring]
  cases hfound : ringCapCandidates.find? reserve with
  | none =>
      constructor
      · intro _ hsome
        rcases hsome with ⟨n, hn, hreserve⟩
        exact absurd hreserve (List.find?_eq_none.mp hfound n hn)
      · intro _
        rfl
  | some n =>
      have hn := List.mem_of_find?_eq_some hfound
      have hreserve := List.find?_some hfound
      have hpos : forall m, m ∈ ringCapCandidates -> 0 < m := by decide
      constructor
      · intro hempty
        have hzero : n = 0 := by simpa using hempty
        exact absurd (hpos n hn) (by omega)
      · intro hnone
        exact absurd ⟨n, hn, hreserve⟩ hnone

/-!
## With a ring
-/

section Ring

variable {rnd : Rat -> Rat} {a : AudioOutput}

theorem operate_of_perform (hrnd : F32.Rounding rnd) (h : Sound a) {c : Call}
    {op : Operation}
    (hop : operate rnd op a = (do let (_, a) <- perform rnd c a; pure a)) :
    exists a', operate rnd op a = .ok a' ∧ Sound a' := by
  rcases perform_ok hrnd h c with ⟨pushed, a', hcall⟩
  rcases step_of_perform hcall with ⟨e, _, hstep⟩
  refine ⟨a', ?_, Step.sound hrnd h hstep⟩
  rw [hop, hcall]
  rfl

theorem operate_sound (hrnd : F32.Rounding rnd) (h : Sound a) (op : Operation) :
    exists a', operate rnd op a = .ok a' ∧ Sound a' := by
  cases op with
  | begin => exact ⟨a, rfl, h⟩
  | beginStream inputRate => exact ⟨_, rfl, beginStream_sound inputRate h.ring_ne_nil⟩
  | feed mono16 =>
      apply operate_of_perform hrnd h (c := .feed mono16)
      simp only [operate, perform, bind_assoc, ok_bind, pure_eq_ok]
  | finishStream => exact operate_of_perform hrnd h (c := .finishStream) rfl
  | stopPlayback => exact ⟨_, rfl, stopPlayback_sound h⟩
  | setVolume v => exact operate_of_perform hrnd h (c := .setVolume v) rfl
  | tick inp =>
      apply operate_of_perform hrnd h (c := .tick inp)
      simp only [operate, perform, bind_assoc, ok_bind, pure_eq_ok]
  | buffered =>
      refine ⟨a, ?_, h⟩
      simp only [operate, h.buffered_eq, ok_bind, pure_eq_ok]
  | isActive =>
      refine ⟨a, ?_, h⟩
      simp only [operate, isActive, h.buffered_eq, ok_bind, pure_eq_ok]
      cases a.streaming <;> rfl

theorem operateAll_sound (hrnd : F32.Rounding rnd) (h : Sound a)
    (ops : List Operation) :
    exists a', operateAll rnd ops a = .ok a' ∧ Sound a' := by
  induction ops generalizing a with
  | nil => exact ⟨a, rfl, h⟩
  | cons op ops ih =>
      rcases operate_sound hrnd h op with ⟨b, hop, hb⟩
      rcases ih hb with ⟨a', hrest, ha'⟩
      refine ⟨a', ?_, ha'⟩
      rw [operateAll, hop, ok_bind, hrest]

end Ring

/-!
## Without a ring
-/

section NoRing

variable (rnd : Rat -> Rat) {a : AudioOutput}

structure Ringless (a : AudioOutput) : Prop where
  ring : a.ring = []
  head : a.head = 0
  tail : a.tail = 0
  xfer : a.xfer = none

theorem Ringless.buffered_eq (h : Ringless a) :
    a.buffered = .error .divisionByZero := by
  have hcap : a.cap = 0 := by
    unfold cap
    rw [h.ring]
    rfl
  unfold buffered
  rw [hcap, h.head, h.tail]
  rfl

theorem Ringless.feed_eq (h : Ringless a) (mono16 : List UInt8) :
    feed rnd mono16 a = .ok (0, a) := by
  unfold feed
  rw [if_pos (Or.inl h.ring)]
  rfl

theorem Ringless.tick_eq (h : Ringless a) (inp : TickInput) :
    tick rnd inp a = .ok (false, none, a) := by
  unfold tick
  rw [if_pos ⟨h.ring, h.xfer⟩]
  rfl

theorem Ringless.operate_error (h : Ringless a) {op : Operation}
    (hop : op = .buffered ∨ (op = .isActive ∧ a.streaming = false)) :
    operate rnd op a = .error .divisionByZero := by
  rcases hop with hop | ⟨hop, hstream⟩
  · subst hop
    simp only [operate, h.buffered_eq, error_bind]
  · subst hop
    simp only [operate, isActive, hstream, Bool.false_eq_true, if_false, h.buffered_eq,
      error_bind]

theorem Ringless.operate_ok (h : Ringless a) {op : Operation}
    (hop : ¬ (op = .buffered ∨ (op = .isActive ∧ a.streaming = false))) :
    exists a', operate rnd op a = .ok a' ∧ Ringless a' ∧
      (a'.streaming = true <->
        (exists rate, op = .beginStream rate) ∨
          (op ≠ .stopPlayback ∧ a.streaming = true)) := by
  cases op with
  | begin => exact ⟨a, rfl, h, by simp⟩
  | beginStream inputRate =>
      refine ⟨_, rfl, ⟨?_, rfl, rfl, ?_⟩, ?_⟩
      · simpa [beginStream] using h.ring
      · simp [beginStream]
      · simp [beginStream]
  | feed mono16 =>
      refine ⟨a, ?_, h, by simp⟩
      simp only [operate, h.feed_eq rnd, ok_bind, pure_eq_ok]
  | finishStream => exact ⟨_, rfl, ⟨h.ring, h.head, h.tail, h.xfer⟩, by simp [finishStream]⟩
  | stopPlayback =>
      refine ⟨_, rfl, ⟨?_, rfl, rfl, ?_⟩, ?_⟩
      · simpa [stopPlayback] using h.ring
      · simp [stopPlayback]
      · simp [stopPlayback]
  | setVolume v => exact ⟨_, rfl, ⟨h.ring, h.head, h.tail, h.xfer⟩, by simp [setVolume]⟩
  | tick inp =>
      refine ⟨a, ?_, h, by simp⟩
      simp only [operate, h.tick_eq rnd, ok_bind, pure_eq_ok]
  | buffered => exact absurd (Or.inl rfl) hop
  | isActive =>
      have hstream : a.streaming = true := by
        by_contra hcontra
        exact hop (Or.inr ⟨rfl, by simpa using hcontra⟩)
      refine ⟨a, ?_, h, by simp⟩
      simp only [operate, isActive, hstream, if_true, ok_bind, pure_eq_ok]

theorem operateAll_snoc (ops : List Operation) (op : Operation) (a : AudioOutput) :
    operateAll rnd (ops ++ [op]) a = (do
      let a <- operateAll rnd ops a
      operate rnd op a) := by
  induction ops generalizing a with
  | nil =>
      simp only [List.nil_append, operateAll, pure_eq_ok, ok_bind]
      cases operate rnd op a <;> rfl
  | cons first ops ih =>
      rw [List.cons_append, operateAll, operateAll]
      cases hfirst : operate rnd first a with
      | error e => rfl
      | ok b => exact ih b

theorem operateAll_ringless (h : Ringless a) (hstream : a.streaming = false)
    (ops : List Operation) :
    (Happened ReadsLevel ops ∧ operateAll rnd ops a = .error .divisionByZero) ∨
      (¬ Happened ReadsLevel ops ∧
        exists a', operateAll rnd ops a = .ok a' ∧ Ringless a' ∧
          (a'.streaming = true <-> StreamOpened ops)) := by
  induction ops using List.reverseRecOn with
  | nil =>
      refine Or.inr ⟨happened_nil, a, rfl, h, ?_⟩
      simp [hstream, StreamOpened]
  | append_singleton ops op ih =>
      rw [operateAll_snoc, happened_snoc]
      rcases ih with ⟨hread, hfault⟩ | ⟨hread, b, hrun, hb, hopened⟩
      · left
        rw [hfault]
        exact ⟨Or.inr hread, rfl⟩
      · have hreads : ReadsLevel ops op <->
            (op = .buffered ∨ (op = .isActive ∧ b.streaming = false)) := by
          unfold ReadsLevel
          rw [← hopened, Bool.not_eq_true]
        rw [hrun, ok_bind]
        by_cases hop : ReadsLevel ops op
        · exact Or.inl ⟨Or.inl hop, hb.operate_error rnd (hreads.mp hop)⟩
        · rcases hb.operate_ok rnd fun hcontra => hop (hreads.mpr hcontra) with
            ⟨a', hoperate, ha', hflag⟩
          refine Or.inr ⟨?_, a', hoperate, ha', ?_⟩
          · intro hcontra
            rcases hcontra with hcontra | hcontra
            · exact hop hcontra
            · exact hread hcontra
          · rw [hflag, hopened]
            unfold StreamOpened
            rw [happenedSince_snoc]

end NoRing

/-- An order of operations on a new output runs without a fault exactly if a ring was
allocated or no operation reads the level of the ring. -/
theorem operations_run_iff {rnd : Rat -> Rat} (hrnd : F32.Rounding rnd)
    (reserve : Nat -> Bool) (ops : List Operation) :
    (exists a, operateAll rnd ops (new reserve) = .ok a) <->
      Allocated reserve ∨ ¬ Happened ReadsLevel ops := by
  by_cases hring : (new reserve).ring = []
  · have hsilent : Ringless (new reserve) := ⟨hring, rfl, rfl, rfl⟩
    have hnone := (new_ring_eq_nil_iff reserve).mp hring
    rcases operateAll_ringless rnd hsilent rfl ops with
      ⟨hread, hfault⟩ | ⟨hread, a, hrun, _⟩
    · rw [hfault]
      simp [hnone, hread]
    · simp [hnone, hread, hrun]
  · have hfresh : Fresh (new reserve) := ⟨reserve, rfl⟩
    rcases operateAll_sound hrnd (hfresh.kept.sound hring) ops with ⟨a, hrun, _⟩
    have hallocated : Allocated reserve := by
      by_contra hnone
      exact hring ((new_ring_eq_nil_iff reserve).mpr hnone)
    simp [hrun, hallocated]

/-- A stream is opened, pumped and stopped on a ring of the smallest size. -/
theorem operations_run_iff_smallest :
    (exists a, operateAll F32.round
        [.begin, .beginStream 16000, .feed [1, 2], .buffered, .stopPlayback, .isActive]
        (new fun n => n == 512 * 1024) = .ok a) :=
  (operations_run_iff F32.rounding_round _ _).mpr
    (Or.inl ⟨512 * 1024, by simp [ringCapCandidates], rfl⟩)

/-- Every allocation fails, and the main loop asks for the level while listening. -/
theorem level_without_ring_faults :
    operateAll F32.round [.begin, .buffered] (new fun _ => false) =
      .error .divisionByZero := by
  decide

end AudioOutput
end TWA
