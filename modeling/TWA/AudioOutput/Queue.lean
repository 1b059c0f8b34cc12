import TWA.AudioOutput.Playback
import TWA.Foundation.Runs

/-!
# The PCM ring over a run

Whatever is fed, drained and reset in whatever order, the ring stands for a queue that
holds one byte less than it has cells.
-/

namespace TWA

open Foundation
open Foundation.Exec

namespace AudioOutput

inductive RingCall where
  | feed (mono16 : List UInt8)
  | fillFromRing (outLen : Nat)
  | beginStream (inputRate : UInt32)
  | stopPlayback
  deriving DecidableEq, Repr

namespace RingCall

/-- The answer is the number of bytes that the call returns, if it returns one. -/
def run (rnd : Rat -> Rat) : RingCall -> AudioOutput -> Exec (Nat × AudioOutput)
  | feed mono16, a => AudioOutput.feed rnd mono16 a
  | fillFromRing outLen, a => do
      let (tail, out) <- AudioOutput.fillFromRing rnd a.ring a.head a.tail a.volume outLen
      pure (out.length, { a with tail := tail })
  | beginStream inputRate, a => pure (0, a.beginStream inputRate)
  | stopPlayback, a => pure (0, a.stopPlayback)

def runAll (rnd : Rat -> Rat) : List RingCall -> AudioOutput -> Exec (List Nat × AudioOutput)
  | [], a => pure ([], a)
  | call :: calls, a => do
      let (answer, a) <- call.run rnd a
      let (answers, a) <- runAll rnd calls a
      pure (answer :: answers, a)

end RingCall

/-- What a call does to the queue beside the output `a`, and what it answers. -/
inductive QueueStep (rnd : Rat -> Rat) {bound : Nat} (a : AudioOutput) :
    RingCall × Nat -> BoundedQueue UInt8 bound -> BoundedQueue UInt8 bound -> Prop where
  | feed {q : BoundedQueue UInt8 bound} (mono16 stored : List UInt8) (answer : Nat)
      (hfed : Fed rnd mono16 a answer stored) (hroom : stored.length ≤ q.room) :
      QueueStep rnd a (.feed mono16, answer) q (q.push stored hroom)
  | fillFromRing {q : BoundedQueue UInt8 bound} (outLen samples : Nat)
      (hsamples : samples = min (q.items.length / 2) (outLen / sampleBytes)) :
      QueueStep rnd a (.fillFromRing outLen, sampleBytes * samples) q (q.pop (2 * samples))
  | beginStream {q : BoundedQueue UInt8 bound} (inputRate : UInt32) :
      QueueStep rnd a (.beginStream inputRate, 0) q BoundedQueue.empty
  | stopPlayback {q : BoundedQueue UInt8 bound} :
      QueueStep rnd a (.stopPlayback, 0) q BoundedQueue.empty

structure Represents {bound : Nat} (a : AudioOutput) (q : BoundedQueue UInt8 bound) : Prop where
  cap_eq : a.ring.length = bound + 1
  head_lt : a.head < a.cap
  tail_lt : a.tail < a.cap
  contents_eq : a.contents = q.items
  buffered_eq : a.buffered = .ok q.items.length
  space_eq : a.space = .ok (a.cap - 1 - q.items.length)

structure Lockstep (rnd : Rat -> Rat) {bound : Nat} (event : RingCall × Nat)
    (s s' : AudioOutput × BoundedQueue UInt8 bound) : Prop where
  run_eq : event.1.run rnd s.1 = .ok (event.2, s'.1)
  moved : QueueStep rnd s.1 event s.2 s'.2
  represents : Represents s'.1 s'.2

section Steps

variable {bound : Nat} {a a' : AudioOutput} {q : BoundedQueue UInt8 bound}

theorem InRange.represents (h : InRange a) (hcap : a.ring.length = bound + 1)
    (hcontents : a.contents = q.items) : Represents a q where
  cap_eq := hcap
  head_lt := h.head_lt
  tail_lt := h.tail_lt
  contents_eq := hcontents
  buffered_eq := by
    rw [h.buffered_eq, hcontents]
  space_eq := by
    rw [h.space_eq, hcontents]
    rfl

def queueOf (a : AudioOutput) (h : InRange a) : BoundedQueue UInt8 (a.ring.length - 1) where
  items := a.contents
  length_le := by
    have hlt := h.length_contents_lt
    omega

theorem represents_queueOf (h : InRange a) : Represents a (queueOf a h) := by
  have hpos := h.cap_pos
  exact h.represents (by omega) rfl

theorem represents_empty (hcap : a.ring.length = bound + 1) (hhead : a.head = 0)
    (htail : a.tail = 0) : Represents a (BoundedQueue.empty : BoundedQueue UInt8 bound) := by
  have hpos : 0 < a.ring.length := by omega
  have hrange : InRange a := ⟨by rw [hhead]; exact hpos, by rw [htail]; exact hpos⟩
  refine hrange.represents hcap ?_
  unfold contents
  rw [hhead, htail]
  exact Ring.contents_empty hpos

variable {rnd : Rat -> Rat}

theorem RingCall.run_eq (hrnd : F32.Rounding rnd) (call : RingCall) (h : Sound a)
    (hq : Represents a q) :
    exists answer s', Lockstep rnd (call, answer) (a, q) s' ∧ Sound s'.1 := by
  cases call with
  | feed mono16 =>
      rcases feed_eq hrnd mono16 h with ⟨n, a', stored, hfeed, hfed, hstores, hsound⟩
      have hroom : stored.length ≤ q.room := by
        have hlt := hstores.inRange.length_contents_lt
        rw [hstores.length_contents, hstores.cap_eq, hq.cap_eq, hq.contents_eq] at hlt
        unfold BoundedQueue.room
        omega
      refine ⟨n, (a', q.push stored hroom), ⟨hfeed, .feed _ _ _ hfed hroom, ?_⟩, hsound⟩
      apply hstores.inRange.represents (hstores.cap_eq.trans hq.cap_eq)
      rw [hstores.contents_eq, hq.contents_eq]
      rfl
  | fillFromRing outLen =>
      rcases fillFromRing_eq rnd h.toInRange outLen with ⟨tail', taken, hfill, hlen, htakes⟩
      rw [hq.contents_eq] at hlen
      refine ⟨sampleBytes * taken.length,
        ({ a with tail := tail' }, q.pop (2 * taken.length)),
        ⟨?_, .fillFromRing _ _ hlen, ?_⟩, ⟨htakes.inRange, h.rate_ge, h.frac_nonneg⟩⟩
      · unfold RingCall.run
        simp only
        rw [hfill, ok_bind]
        simp only [length_encodeSamples]
        rfl
      · apply htakes.inRange.represents hq.cap_eq
        have hrest := htakes.contents_eq
        rw [hq.contents_eq] at hrest
        change _ = q.items.drop (2 * taken.length)
        rw [hrest, ← length_flatMap_bytesOf, List.drop_left]
  | beginStream inputRate =>
      refine ⟨0, (_, BoundedQueue.empty), ⟨rfl, .beginStream inputRate, ?_⟩,
        beginStream_sound inputRate h.ring_ne_nil⟩
      refine represents_empty ?_ rfl rfl
      rw [← hq.cap_eq]
      exact congrArg List.length (reclaim_ring a)
  | stopPlayback =>
      refine ⟨0, (_, BoundedQueue.empty), ⟨rfl, .stopPlayback, ?_⟩, stopPlayback_sound h⟩
      refine represents_empty ?_ rfl rfl
      rw [← hq.cap_eq]
      exact congrArg List.length (reclaim_ring a)

theorem RingCall.runAll_eq (hrnd : F32.Rounding rnd) (calls : List RingCall) (h : Sound a)
    (hq : Represents a q) :
    exists answers s', RingCall.runAll rnd calls a = .ok (answers, s'.1) ∧
      answers.length = calls.length ∧ Run (Lockstep rnd) (a, q) (calls.zip answers) s' ∧
        Represents s'.1 s'.2 := by
  induction calls generalizing a q with
  | nil => exact ⟨[], (a, q), rfl, rfl, Run.nil (a, q), hq⟩
  | cons call calls ih =>
      rcases call.run_eq hrnd h hq with ⟨answer, ⟨a1, q1⟩, hstep, hsound1⟩
      rcases ih hsound1 hstep.represents with ⟨answers, s', hall, hlen, hsteps, hq'⟩
      refine ⟨answer :: answers, s', ?_, ?_, Run.cons hstep hsteps, hq'⟩
      · unfold RingCall.runAll
        rw [hstep.run_eq, ok_bind]
        simp only
        rw [hall, ok_bind]
        rfl
      · rw [List.length_cons, List.length_cons, hlen]

/-- From every state with indices in range, and with a resampler as a stream leaves it,
every list of calls runs without a fault, and each call does to the ring what it does to the
queue between the indices. -/
theorem ring_is_a_queue (hrnd : F32.Rounding rnd) (h : Sound a) (calls : List RingCall) :
    exists answers a' q',
      RingCall.runAll rnd calls a = .ok (answers, a') ∧ answers.length = calls.length ∧
        Represents a (queueOf a h.toInRange) ∧
          Run (Lockstep rnd) (a, queueOf a h.toInRange) (calls.zip answers) (a', q') ∧
            Represents a' q' := by
  have hq := represents_queueOf h.toInRange
  rcases RingCall.runAll_eq hrnd calls h hq with ⟨answers, s', hall, hlen, hsteps, hq'⟩
  exact ⟨answers, s'.1, s'.2, hall, hlen, hq, hsteps, hq'⟩

/-- A stream at the rate of the speaker and one that is resampled, over seven cells. -/
theorem ring_is_a_queue_seven :
    exists answers a' q',
      RingCall.runAll F32.round
          [.feed [1, 2, 3, 4, 5, 6, 7, 8], .fillFromRing 8, .feed [9, 10, 11], .beginStream 8000,
            .feed [1, 0, 3, 0], .fillFromRing 64, .stopPlayback]
          (beginStream 16000 (withRing 7)) = .ok (answers, a') ∧
        Represents a' (q' : BoundedQueue UInt8 6) := by
  have hring : (withRing 7).ring ≠ [] := by decide
  rcases ring_is_a_queue F32.rounding_round (beginStream_sound 16000 hring)
      [.feed [1, 2, 3, 4, 5, 6, 7, 8], .fillFromRing 8, .feed [9, 10, 11], .beginStream 8000,
        .feed [1, 0, 3, 0], .fillFromRing 64, .stopPlayback] with
    ⟨answers, a', q', hall, _, _, _, hq'⟩
  exact ⟨answers, a', q', hall, hq'⟩

end Steps

end AudioOutput
end TWA
