import TWA.AudioOutput.Playback

/-!
# Sample boundaries

Draining takes whole samples only, so playback stays on sample boundaries as long
as every feed stores whole samples.  The resampler tests for the room of a pair.
The pass-through path tests bytes, and an overflow there may cut a sample in two.
-/

namespace TWA

open Foundation
open Foundation.Exec

namespace AudioOutput

/-- Every feed stores a whole-sample prefix of what it was offered, and the values
taken out are these samples in order. -/
def WholeSamples (es : List Event) : Prop :=
  exists puts : List (List Sample),
    List.Forall₂ (fun e put =>
      put <+: e.offered ∧ e.stored = put.flatMap bytesOf) es puts ∧
      (es.flatMap fun e => samplesOf e.removed) <+: puts.flatten

def EvenBlocks (e : Event) (_ : AudioOutput) : Prop :=
  forall mono16, e.call = .feed mono16 -> mono16.length % 2 = 0

/-- A block passed through unresampled fits, or the room is even. -/
def Fits (e : Event) (a : AudioOutput) : Prop :=
  forall mono16 room, e.call = .feed mono16 ->
    a.inRate = Config.spkSampleRate -> a.space = .ok room ->
      mono16.length ≤ room ∨ room % 2 = 0

theorem WholeSamples.mem_offered {es : List Event} (h : WholeSamples es)
    {s : Sample} (hs : s ∈ es.flatMap fun e => samplesOf e.removed) :
    s ∈ es.flatMap Event.offered := by
  rcases h with ⟨puts, hputs, hpre⟩
  have hmem := hpre.subset hs
  clear hpre hs
  induction hputs with
  | nil => simp at hmem
  | cons hone _ ih =>
      rw [List.flatten_cons, List.mem_append] at hmem
      rw [List.flatMap_cons, List.mem_append]
      rcases hmem with hfirst | hrest
      · exact Or.inl (hone.1.subset hfirst)
      · exact Or.inr (ih hrest)

/-! ## Whole samples as bytes -/

theorem flatMap_samplesOf : forall (bs : List UInt8), bs.length % 2 = 0 ->
    (samplesOf bs).flatMap bytesOf = bs
  | [], _ => rfl
  | [b], h => by simp at h
  | lo :: hi :: rest, h => by
      have hrest := flatMap_samplesOf rest (by
        rw [List.length_cons, List.length_cons] at h
        omega)
      rw [samplesOf, List.flatMap_cons, bytesOf_sampleOfBytes, hrest]
      rfl

theorem take_flatMap_bytesOf (xs : List Sample) (k : Nat) :
    (xs.flatMap bytesOf).take (2 * k) = (xs.take k).flatMap bytesOf := by
  induction k generalizing xs with
  | zero => simp
  | succ k ih =>
      cases xs with
      | nil => simp
      | cons s xs =>
          rw [List.take_succ_cons, List.flatMap_cons, List.flatMap_cons, ← ih]
          rfl

theorem whole_of_append {xs ys : List Sample} {rest : List UInt8}
    (h : xs.flatMap bytesOf = ys.flatMap bytesOf ++ rest) :
    xs = ys ++ samplesOf rest ∧ rest = (samplesOf rest).flatMap bytesOf := by
  have hsamples := congrArg samplesOf h
  rw [samplesOf_flatMap, samplesOf_flatMap_append] at hsamples
  refine ⟨hsamples, ?_⟩
  rw [hsamples, List.flatMap_append] at h
  exact (List.append_cancel_left h).symm

/-! ## One call -/

section OneCall

variable {rnd : Rat -> Rat} {a a' : AudioOutput} {e : Event}

theorem fed_whole (h : InRange a) {mono16 bytes : List UInt8} {answer : Nat}
    (heven : mono16.length % 2 = 0)
    (hfits : a.inRate = Config.spkSampleRate -> forall room,
      a.space = .ok room -> mono16.length ≤ room ∨ room % 2 = 0)
    (hfed : Fed rnd mono16 a answer bytes) :
    exists put, put <+: offered rnd (.feed mono16) a ∧
      bytes = put.flatMap bytesOf := by
  cases hfed with
  | ignored _ => exact ⟨[], List.nil_prefix, rfl⟩
  | passThrough _ hrate =>
      have hoffered : offered rnd (.feed mono16) a = samplesOf mono16 :=
        if_pos hrate
      rw [hoffered]
      rcases hfits hrate _ h.space_eq with hroom | hroom
      · refine ⟨samplesOf mono16, List.prefix_refl _, ?_⟩
        rw [List.take_of_length_le hroom, flatMap_samplesOf mono16 heven]
      · refine ⟨(samplesOf mono16).take
          ((a.ring.length - 1 - a.contents.length) / 2), List.take_prefix _ _, ?_⟩
        rw [← take_flatMap_bytesOf, flatMap_samplesOf mono16 heven]
        congr 1
        omega
  | resampled _ hrate =>
      have hoffered : offered rnd (.feed mono16) a =
          blockOutputs rnd (ratio rnd a.inRate) (samplesOf mono16) a.rFrac
            a.rPrev :=
        if_neg hrate
      rw [hoffered]
      exact ⟨_, List.take_prefix _ _, rfl⟩

theorem Step.stores_whole (hrnd : F32.Rounding rnd) (h : Sound a)
    (heven : EvenBlocks e a) (hfits : Fits e a) (hstep : Step rnd e a a') :
    exists put, put <+: e.offered ∧ e.stored = put.flatMap bytesOf := by
  have hstored := hstep.stored_eq
  cases Step.cases hrnd h hstep with
  | fed mono16 bytes _ hcall hfed hstores _ _ =>
      rw [hstores.stored_eq h.toInRange] at hstored
      rw [hstored, hstep.offered_eq, hcall]
      exact fed_whole h.toInRange (heven mono16 hcall)
        (fun hrate room hroom => hfits mono16 room hcall hrate hroom) hfed
  | drained taken _ hdrain _ _ =>
      rw [hdrain.stored_eq h.toInRange] at hstored
      exact ⟨[], List.nil_prefix, hstored⟩

end OneCall

/-! ## Whole runs -/

section Runs

variable {rnd : Rat -> Rat} {a a' : AudioOutput} {es : List Event}

def WholeBlocks (e : Event) (a : AudioOutput) : Prop :=
  EvenBlocks e a ∧ Fits e a

theorem run_whole (hrnd : F32.Rounding rnd) (h : Sound a) {queue : List Sample}
    (hqueue : a.contents = queue.flatMap bytesOf)
    (hrun : Run (Guarded WholeBlocks (Step rnd)) a es a') :
    exists puts : List (List Sample),
      List.Forall₂ (fun e put =>
        put <+: e.offered ∧ e.stored = put.flatMap bytesOf) es puts ∧
        (es.flatMap fun e => samplesOf e.removed) <+: queue ++ puts.flatten := by
  induction hrun generalizing queue with
  | nil s => exact ⟨[], List.Forall₂.nil, List.nil_prefix⟩
  | @cons s t u e es hstep hrest ih =>
      rcases hstep with ⟨⟨heven, hfits⟩, hstep⟩
      rcases Step.stores_whole hrnd h heven hfits hstep with
        ⟨put, hpre, hstored⟩
      have hone := Step.conserves hrnd h hstep
      have hbytes := hone.queue_eq
      rw [hqueue, hstored, ← List.flatMap_append, hone.removed_whole] at hbytes
      rcases whole_of_append hbytes with ⟨hsplit, hwhole⟩
      rcases ih (Step.sound hrnd h hstep) hwhole with ⟨puts, hputs, htaken⟩
      refine ⟨put :: puts, List.Forall₂.cons ⟨hpre, hstored⟩ hputs, ?_⟩
      rw [List.flatMap_cons, List.flatten_cons, ← List.append_assoc, hsplit,
        List.append_assoc]
      exact (List.prefix_append_right_inj _).mpr htaken

/-- Playback stays on sample boundaries as long as no block that passes through
unresampled overflows an odd room. -/
theorem playback_on_sample_boundaries (rate : UInt32) (hring : a.ring ≠ [])
    (hrun : Run (Guarded WholeBlocks (Step F32.round)) (beginStream rate a) es
      a') : WholeSamples es := by
  have hnil : (beginStream rate a).contents = ([] : List Sample).flatMap bytesOf :=
    beginStream_contents rate hring
  rcases run_whole F32.rounding_round (beginStream_sound rate hring) hnil hrun with
    ⟨puts, hputs, htaken⟩
  exact ⟨puts, hputs, htaken⟩

/-- Two blocks that fit, one drained across the end of the ring. -/
theorem playback_on_sample_boundaries_wrapped :
    WholeSamples
      [{ call := .feed [1, 2, 3, 4], volume := 80, offered := [0x0201, 0x0403],
         stored := [1, 2, 3, 4], removed := [], pushed := [] },
       { call := .fill 4, volume := 80, offered := [], stored := [],
         removed := [1, 2], pushed := [⟨[0, 0, 33, 5], 4⟩] },
       { call := .feed [5, 6], volume := 80, offered := [0x0605],
         stored := [5, 6], removed := [], pushed := [] }] := by
  have hring : (withRing 6).ring ≠ [] := by decide
  apply playback_on_sample_boundaries 16000 hring
  refine Run.cons (t := { beginStream 16000 (withRing 6) with
    ring := [1, 2, 3, 4, 0, 0], head := 4 }) ⟨⟨?_, ?_⟩, ?_⟩
    (Run.cons (t := { beginStream 16000 (withRing 6) with
      ring := [1, 2, 3, 4, 0, 0], head := 4, tail := 2 }) ⟨⟨?_, ?_⟩, ?_⟩
      (Run.single (t := { beginStream 16000 (withRing 6) with
          ring := [1, 2, 3, 4, 5, 6], head := 0, tail := 2 })
          ⟨⟨?_, ?_⟩, ?_⟩))
  · intro mono16 hcall
    cases hcall
    rfl
  · intro mono16 room hcall _ hroom
    cases hcall
    cases hroom
    exact Or.inl (by decide)
  · exact ⟨by decide +kernel, rfl, by decide +kernel, by decide +kernel,
      by decide +kernel⟩
  · intro mono16 hcall
    cases hcall
  · intro mono16 room hcall
    cases hcall
  · exact ⟨by decide +kernel, rfl, by decide +kernel, by decide +kernel,
      by decide +kernel⟩
  · intro mono16 hcall
    cases hcall
    rfl
  · intro mono16 room hcall _ hroom
    cases hcall
    cases hroom
    exact Or.inl (by decide)
  · exact ⟨by decide +kernel, rfl, by decide +kernel, by decide +kernel,
      by decide +kernel⟩

end Runs

/-!
## An overflow that cuts a sample

The usable size of every ring is odd, so a block that overflows an empty ring
loses half a sample, and what follows is played with the bytes of neighbouring
samples paired.
-/

section Overflow

variable {rnd : Rat -> Rat} {a : AudioOutput}

theorem step_passThrough (hrnd : F32.Rounding rnd) (mono16 : List UInt8)
    (h : Sound a) (hstream : a.streaming = true)
    (hrate : a.inRate = Config.spkSampleRate) (hne : mono16 ≠ []) :
    exists e b, Step rnd e a b ∧ e.call = .feed mono16 ∧
      e.offered = samplesOf mono16 ∧ e.removed = [] ∧ Sound b ∧
      Stores (mono16.take (a.ring.length - 1 - a.contents.length)) a b := by
  rcases feed_eq hrnd mono16 h with ⟨n, b, bytes, hfeed, hfed, hstores, hsound⟩
  refine ⟨⟨.feed mono16, a.volume, offered rnd (.feed mono16) a,
    Ring.contents b.ring b.head a.head, Ring.contents a.ring b.tail a.tail, []⟩,
    b, ⟨by simp [perform, hfeed], rfl, rfl, rfl, rfl⟩, rfl, if_pos hrate, ?_,
    hsound, ?_⟩
  · rw [hstores.tail]
    exact Ring.contents_empty h.tail_lt
  · cases hfed with
    | ignored hskip =>
        rcases hskip with hempty | hstopped
        · exact absurd hempty hne
        · rw [hstream] at hstopped
          cases hstopped
    | passThrough _ _ => exact hstores
    | resampled _ hother => exact absurd hrate hother

theorem step_fill (rnd : Rat -> Rat) (h : Sound a) (outLen : Nat) :
    exists e b taken, Step rnd e a b ∧ e.call = .fill outLen ∧ e.offered = [] ∧
      samplesOf e.removed = taken ∧ Sound b ∧
      taken.length = min (a.contents.length / 2) (outLen / sampleBytes) ∧
      Takes taken a b := by
  rcases fillSlice_eq rnd h.toInRange outLen with ⟨taken, b, hfill, hlen, htakes⟩
  refine ⟨⟨.fill outLen, a.volume, [], Ring.contents b.ring b.head a.head,
    Ring.contents a.ring b.tail a.tail, [queued rnd a.volume outLen taken]⟩, b,
    taken, ⟨by simp [perform, hfill], rfl, rfl, rfl, rfl⟩, rfl, rfl, ?_,
    htakes.drains.sound h, hlen, htakes⟩
  rw [htakes.drains.removed_eq h.toInRange, samplesOf_flatMap]

/-- On a ring of even size, a block of zeros as long as the ring leaves half a
sample behind; the next sample is then read across its boundary. -/
theorem overflow_cuts_sample (hrnd : F32.Rounding rnd) (cap : Nat)
    (heven : cap % 2 = 0) (hcap : 4 ≤ cap) :
    exists es b,
      Run (Guarded EvenBlocks (Step rnd)) (beginStream 16000 (withRing cap)) es
        b ∧
        0x0200 ∈ (es.flatMap fun e => samplesOf e.removed) ∧
        es.flatMap Event.offered =
          samplesOf (List.replicate cap 0) ++ [0x0302] := by
  have hring : (withRing cap).ring ≠ [] :=
    List.ne_nil_of_length_pos (by simp [withRing]; omega)
  have h0 := beginStream_sound 16000 hring
  have hcontents0 := beginStream_contents 16000 hring
  have hsize : (beginStream 16000 (withRing cap)).ring.length = cap := by
    simp [beginStream, withRing]
  -- the whole ring offered, one byte of it dropped
  have hblock : List.replicate cap (0 : UInt8) ≠ [] := by
    simp
    omega
  rcases step_passThrough hrnd (List.replicate cap 0) h0 rfl rfl hblock with
    ⟨e1, b1, hstep1, hcall1, hoffered1, hremoved1, h1, hstores1⟩
  have hcontents1 : b1.contents = List.replicate (cap - 1) 0 := by
    rw [hstores1.contents_eq, hcontents0, hsize, List.nil_append,
      List.take_replicate]
    congr 1
    simp
  -- everything drained but the half sample
  rcases step_fill rnd h1 (4 * cap) with
    ⟨e2, b2, taken2, hstep2, hcall2, hoffered2, hremoved2, h2, hlen2, htakes2⟩
  have hsplit2 := htakes2.contents_eq
  rw [hcontents1] at hsplit2
  have hcontents2 : b2.contents = [0] := by
    have hlen := congrArg List.length hsplit2
    rw [List.length_append, length_flatMap_bytesOf, hlen2, hcontents1,
      List.length_replicate, sampleBytes] at hlen
    rw [eq_comm, List.append_eq_replicate_iff] at hsplit2
    rw [hsplit2.2.2]
    rw [show b2.contents.length = 1 by omega]
    rfl
  -- one more sample fed, and the split one drained
  rcases step_passThrough hrnd [2, 3] h2
      (by rw [htakes2.frame]; exact hstores1.streaming)
      (by rw [htakes2.frame]; exact hstores1.inRate)
      (by simp) with
    ⟨e3, b3, hstep3, hcall3, hoffered3, hremoved3, h3, hstores3⟩
  have hcontents3 : b3.contents = [0, 2, 3] := by
    have hsize2 : b2.ring.length = cap := by
      rw [htakes2.frame, hstores1.cap_eq, hsize]
    rw [hstores3.contents_eq, hcontents2, hsize2, List.take_of_length_le]
    · rfl
    · simp
      omega
  rcases step_fill rnd h3 4 with
    ⟨e4, b4, taken4, hstep4, hcall4, hoffered4, hremoved4, h4, hlen4, htakes4⟩
  have hsplit4 := htakes4.contents_eq
  rw [hcontents3] at hsplit4 hlen4
  have htaken4 : taken4 = [0x0200] := by
    have hsamples := congrArg samplesOf hsplit4
    rw [samplesOf_flatMap_append] at hsamples
    have hone : taken4.length = 1 := hlen4
    have hfirst := congrArg (List.take taken4.length) hsamples
    rw [List.take_left, hone] at hfirst
    exact hfirst.symm
  refine ⟨[e1, e2, e3, e4], b4, ?_, ?_, ?_⟩
  · refine Run.cons ⟨?_, hstep1⟩ (Run.cons ⟨?_, hstep2⟩
      (Run.cons ⟨?_, hstep3⟩ (Run.single ⟨?_, hstep4⟩)))
    · intro mono16 hcall
      rw [hcall1] at hcall
      cases hcall
      simpa using heven
    · intro mono16 hcall
      rw [hcall2] at hcall
      cases hcall
    · intro mono16 hcall
      rw [hcall3] at hcall
      cases hcall
      rfl
    · intro mono16 hcall
      rw [hcall4] at hcall
      cases hcall
  · simp [hremoved4, htaken4]
  · simp only [List.flatMap_cons, List.flatMap_nil, hoffered1, hoffered2,
      hoffered3, hoffered4, List.nil_append, List.append_nil]
    rfl

theorem samplesOf_zeros : forall (n : Nat) (s : Sample),
    s ∈ samplesOf (List.replicate n 0) -> s = 0
  | 0, s, hs => by cases hs
  | 1, s, hs => by cases hs
  | n + 2, s, hs => by
      rw [List.replicate_succ, List.replicate_succ, samplesOf,
        List.mem_cons] at hs
      rcases hs with rfl | hs
      · rfl
      · exact samplesOf_zeros n s hs

theorem new_smallest :
    new (fun size => decide (size ≤ 512 * 1024)) = withRing (512 * 1024) := by
  have hfind : ((ringCapCandidates.find?
      fun size => decide (size ≤ 512 * 1024)).getD 0) = 512 * 1024 := by
    decide
  exact congrArg withRing hfind

/-- The smallest real ring, a block of its size and one more sample. -/
theorem overflow_leaves_sample_boundary :
    exists es b,
      Run (Guarded EvenBlocks (Step F32.round))
        (beginStream 16000 (new fun size => decide (size ≤ 512 * 1024))) es b ∧
        ¬ WholeSamples es := by
  rw [new_smallest]
  rcases overflow_cuts_sample F32.rounding_round (512 * 1024)
      (by norm_num) (by norm_num) with ⟨es, b, hrun, htaken, hoffered⟩
  refine ⟨es, b, hrun, fun hwhole => ?_⟩
  have hmem := hwhole.mem_offered htaken
  rw [hoffered, List.mem_append, List.mem_singleton] at hmem
  rcases hmem with hzero | hother
  · exact absurd (samplesOf_zeros _ _ hzero) (by decide)
  · exact absurd hother (by decide)

end Overflow

end AudioOutput
end TWA
