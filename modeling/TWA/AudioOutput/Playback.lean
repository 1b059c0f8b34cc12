import TWA.AudioOutput.Pump
import TWA.Foundation.Runs

/-!
# Runs of a playback stream

Between `begin_stream` and the end of playback an output is fed, pumped, marked
as complete and turned up or down in any order.  Every such run obeys one
conservation law: what was stored is what was removed followed by what is still
queued.  Exactly-once delivery follows from it.
-/

namespace TWA

open Foundation
open Foundation.Exec

namespace AudioOutput

/-- The calls of a stream; `fill` is a slice filled from the ring directly. -/
inductive Call where
  | feed (mono16 : List UInt8)
  | finishStream
  | setVolume (v : Int)
  | fill (outLen : Nat)
  | tick (inp : TickInput)
  deriving DecidableEq, Repr

def Pushed.sound (p : Pushed) : List UInt8 :=
  p.bytes.take p.audio

def Pushed.Padded (p : Pushed) : Prop :=
  p.bytes.drop p.audio = List.replicate (p.bytes.length - p.audio) 0

section Calls

variable (rnd : Rat -> Rat)

def perform : Call -> AudioOutput -> Exec (List Pushed × AudioOutput)
  | .feed mono16, a => do
      let (_, a) <- feed rnd mono16 a
      pure ([], a)
  | .finishStream, a => pure ([], finishStream a)
  | .setVolume v, a => pure ([], setVolume v a)
  | .fill outLen, a => do
      let (p, a) <- fillSlice rnd outLen a
      pure ([p], a)
  | .tick inp, a => do
      let (_, p, a) <- tick rnd inp a
      pure (p.toList, a)

/-- The samples that a call has to store, ring space aside. -/
def offered : Call -> AudioOutput -> List Sample
  | .feed mono16, a =>
      if a.inRate = Config.spkSampleRate then samplesOf mono16
      else blockOutputs rnd (ratio rnd a.inRate) (samplesOf mono16) a.rFrac
        a.rPrev
  | _, _ => []

end Calls

/-- A call together with what can be observed of it: the volume in force, the
samples offered, the bytes between the old and the new head, the bytes between
the old and the new tail, and the slices queued for the DMA. -/
structure Event where
  call : Call
  volume : Int
  offered : List Sample
  stored : List UInt8
  removed : List UInt8
  pushed : List Pushed
  deriving DecidableEq, Repr

def Event.sound (e : Event) : List UInt8 :=
  e.pushed.flatMap Pushed.sound

structure Step (rnd : Rat -> Rat) (e : Event) (a a' : AudioOutput) : Prop where
  call_eq : perform rnd e.call a = .ok (e.pushed, a')
  volume_eq : e.volume = a.volume
  offered_eq : e.offered = AudioOutput.offered rnd e.call a
  stored_eq : e.stored = Ring.contents a'.ring a'.head a.head
  removed_eq : e.removed = Ring.contents a.ring a'.tail a.tail

def StartsOk (e : Event) (_ : AudioOutput) : Prop :=
  forall inp, e.call = .tick inp -> inp.startOk = true

/-!
## One call
-/

section OneCall

variable {rnd : Rat -> Rat} {a a' : AudioOutput}

theorem sound_queued (volume : Int) (outLen : Nat) (taken : List Sample) :
    (queued rnd volume outLen taken).sound = encodeSamples rnd volume taken := by
  unfold Pushed.sound queued
  exact List.take_left' (length_encodeSamples rnd volume taken)

/-- `a'` is `a` with whole samples taken from the front of the ring; the pump
flags and handles are left open. -/
structure Drains (taken : List Sample) (a a' : AudioOutput) : Prop where
  inRange : InRange a'
  contents_eq : a.contents = taken.flatMap bytesOf ++ a'.contents
  ring_eq : a'.ring = a.ring
  head_eq : a'.head = a.head
  inRate_eq : a'.inRate = a.inRate
  rFrac_eq : a'.rFrac = a.rFrac

namespace Drains

theorem idle (hrange : InRange a') (hring : a'.ring = a.ring)
    (hhead : a'.head = a.head) (htail : a'.tail = a.tail)
    (hrate : a'.inRate = a.inRate) (hfrac : a'.rFrac = a.rFrac) :
    Drains [] a a' := by
  refine ⟨hrange, ?_, hring, hhead, hrate, hfrac⟩
  simp [contents, hring, hhead, htail]

theorem of_pump {taken : List Sample} {b b' : AudioOutput}
    (h : Drains taken { reclaim a with started := true, tx := none, stream := none } b)
    (hring : b'.ring = b.ring) (hhead : b'.head = b.head)
    (htail : b'.tail = b.tail) (hrate : b'.inRate = b.inRate)
    (hfrac : b'.rFrac = b.rFrac) : Drains taken a b' where
  inRange := ⟨by rw [hring, hhead]; exact h.inRange.head_lt,
    by rw [hring, htail]; exact h.inRange.tail_lt⟩
  contents_eq := by
    have hcontents := h.contents_eq
    simp only [contents, reclaim_ring, reclaim_head, reclaim_tail] at hcontents ⊢
    rw [hring, hhead, htail, hcontents]
  ring_eq := by simpa [hring] using h.ring_eq
  head_eq := by simpa [hhead] using h.head_eq
  inRate_eq := by simpa [hrate] using h.inRate_eq
  rFrac_eq := by simpa [hfrac] using h.rFrac_eq

theorem removed_eq {taken : List Sample} (h : InRange a)
    (hdrain : Drains taken a a') :
    Ring.contents a.ring a'.tail a.tail = taken.flatMap bytesOf := by
  have hinside := hdrain.inRange.tail_lt
  rw [hdrain.ring_eq] at hinside
  have hcontents := hdrain.contents_eq
  unfold contents at hcontents
  rw [hdrain.ring_eq, hdrain.head_eq] at hcontents
  exact Ring.contents_removed h.head_lt h.tail_lt hinside hcontents

theorem stored_eq {taken : List Sample} (h : InRange a)
    (hdrain : Drains taken a a') :
    Ring.contents a'.ring a'.head a.head = [] := by
  rw [hdrain.ring_eq, hdrain.head_eq]
  exact Ring.contents_empty h.head_lt

theorem sound {taken : List Sample} (h : Sound a) (hdrain : Drains taken a a') :
    Sound a' where
  toInRange := hdrain.inRange
  rate_ge := by
    rw [hdrain.inRate_eq]
    exact h.rate_ge
  frac_nonneg := by
    rw [hdrain.rFrac_eq]
    exact h.frac_nonneg

end Drains

theorem Takes.drains {taken : List Sample} (h : Takes taken a a') :
    Drains taken a a' where
  inRange := h.inRange
  contents_eq := h.contents_eq
  ring_eq := by rw [h.frame]
  head_eq := by rw [h.frame]
  inRate_eq := by rw [h.frame]
  rFrac_eq := by rw [h.frame]

theorem fillSlice_drains (h : InRange a) {outLen : Nat} {p : Pushed}
    (hfill : fillSlice rnd outLen a = .ok (p, a')) :
    exists taken, Drains taken a a' ∧
      p.sound = encodeSamples rnd a.volume taken := by
  rcases fillSlice_eq rnd h outLen with ⟨taken, b, heq, _, htakes⟩
  rw [heq] at hfill
  cases hfill
  exact ⟨taken, htakes.drains, sound_queued a.volume outLen taken⟩

theorem tick_drains (h : InRange a) {inp : TickInput} {started : Bool}
    {p : Option Pushed} (htick : tick rnd inp a = .ok (started, p, a')) :
    exists taken, Drains taken a a' ∧
      (inp.startOk = true ->
        p.toList.flatMap Pushed.sound = encodeSamples rnd a.volume taken) := by
  have hnothing {b : AudioOutput} (hdrain : Drains [] a b) :
      exists taken, Drains taken a b ∧
        (inp.startOk = true ->
          (none : Option Pushed).toList.flatMap Pushed.sound =
            encodeSamples rnd a.volume taken) :=
    ⟨[], hdrain, fun _ => rfl⟩
  have hback := h.reclaim
  cases tick_cases htick with
  | silent _ _ => exact hnothing (Drains.idle h rfl rfl rfl rfl rfl)
  | finished _ _ _ =>
      exact hnothing (Drains.idle ⟨hback.head_lt, hback.tail_lt⟩ (by simp)
        (by simp) (by simp) (by simp) (by simp))
  | refilled _ _ _ _ _ p _ hfill =>
      rcases fillSlice_drains h hfill with ⟨taken, hdrain, hsound⟩
      exact ⟨taken, hdrain, fun _ => by simpa using hsound⟩
  | running _ _ _ => exact hnothing (Drains.idle h rfl rfl rfl rfl rfl)
  | stopped _ _ =>
      exact hnothing (Drains.idle hback (by simp) (by simp) (by simp) (by simp)
        (by simp))
  | waiting _ _ _ =>
      exact hnothing (Drains.idle hback (by simp) (by simp) (by simp) (by simp)
        (by simp))
  | noHandles _ _ _ _ =>
      exact hnothing (Drains.idle ⟨hback.head_lt, hback.tail_lt⟩ (by simp)
        (by simp) (by simp) (by simp) (by simp))
  | launched _ _ _ tx stream _ _ p b hfill _ =>
      have hready : InRange
          { reclaim a with started := true, tx := none, stream := none } :=
        ⟨hback.head_lt, hback.tail_lt⟩
      rcases fillSlice_drains hready hfill with ⟨taken, hdrain, hsound⟩
      exact ⟨taken, hdrain.of_pump rfl rfl rfl rfl rfl, fun _ => by simpa using hsound⟩
  | startFailed _ _ _ _ _ _ _ _ b hfill hfailed =>
      have hready : InRange
          { reclaim a with started := true, tx := none, stream := none } :=
        ⟨hback.head_lt, hback.tail_lt⟩
      rcases fillSlice_drains hready hfill with ⟨taken, hdrain, _⟩
      refine ⟨taken, hdrain.of_pump rfl rfl rfl rfl rfl, fun hstartOk => ?_⟩
      rw [hstartOk] at hfailed
      cases hfailed

theorem samplesOf_flatMap_append (xs : List Sample) (rest : List UInt8) :
    samplesOf (xs.flatMap bytesOf ++ rest) = xs ++ samplesOf rest := by
  induction xs with
  | nil => rfl
  | cons s xs ih =>
      have hpair : sampleOfBytes (lowByte s) (highByte s) = s := by
        unfold sampleOfBytes lowByte highByte
        ext i hi
        simp
        grind
      change sampleOfBytes (lowByte s) (highByte s) ::
        samplesOf (xs.flatMap bytesOf ++ rest) = _
      rw [hpair, ih, List.cons_append]

theorem samplesOf_flatMap (xs : List Sample) :
    samplesOf (xs.flatMap bytesOf) = xs := by
  simpa [samplesOf] using samplesOf_flatMap_append xs []

theorem Stores.stored_eq {bytes : List UInt8} (h : InRange a)
    (hstores : Stores bytes a a') :
    Ring.contents a'.ring a'.head a.head = bytes := by
  have hcontents := hstores.contents_eq
  unfold contents at hcontents
  rw [hstores.tail] at hcontents
  exact Ring.contents_appended h.head_lt h.tail_lt hstores.inRange.head_lt
    hstores.cap_eq hcontents

/-- A call either feeds or drains; playback ends only on an empty ring. -/
inductive StepCase (rnd : Rat -> Rat) (e : Event) (a a' : AudioOutput) : Prop where
  | fed (mono16 bytes : List UInt8) (answer : Nat) (hcall : e.call = .feed mono16)
      (hfed : Fed rnd mono16 a answer bytes) (hstores : Stores bytes a a')
      (hsound : Sound a') (hpushed : e.pushed = [])
  | drained (taken : List Sample) (hcall : forall mono16, e.call ≠ .feed mono16)
      (hdrain : Drains taken a a')
      (hwords : StartsOk e a -> e.sound = encodeSamples rnd a.volume taken)
      (hended : a'.streaming = false -> a.streaming = false ∨ a.contents = [])

theorem tick_ends (h : InRange a) {inp : TickInput} {started : Bool}
    {p : Option Pushed} (hstream : a.streaming = true)
    (htick : tick rnd inp a = .ok (started, p, a'))
    (hended : a'.streaming = false) :
    a.doneFlag = true ∧ a.contents = [] ∧ a.xfer ≠ none ∧ inp.isDone = true := by
  have hkeeps {b : AudioOutput} (hb : b.streaming = a.streaming)
      (hstopped : b.streaming = false) : False := by
    rw [hb, hstream] at hstopped
    cases hstopped
  cases tick_cases htick with
  | silent _ _ => exact (hkeeps rfl hended).elim
  | finished hxfer hdone hdrained =>
      rw [h.drained_eq, Except.ok.injEq] at hdrained
      simp only [Bool.and_eq_true, decide_eq_true_eq] at hdrained
      exact ⟨hdrained.1.2, hdrained.2, hxfer, hdone⟩
  | refilled _ _ _ _ _ p _ hfill =>
      exact (hkeeps (by rw [fillSlice_frame hfill]) hended).elim
  | running _ _ _ => exact (hkeeps rfl hended).elim
  | stopped _ hidle =>
      rw [hstream] at hidle
      cases hidle
  | waiting _ _ _ => exact (hkeeps (reclaim_streaming a) hended).elim
  | noHandles _ _ _ _ => exact (hkeeps (reclaim_streaming a) hended).elim
  | launched _ _ _ _ _ _ _ _ b hfill _ =>
      exact (hkeeps (b := b) (by rw [fillSlice_frame hfill]; simp) hended).elim
  | startFailed _ _ _ _ _ _ _ _ b hfill _ =>
      exact (hkeeps (b := b) (by rw [fillSlice_frame hfill]; simp) hended).elim

theorem Step.cases (hrnd : F32.Rounding rnd) {e : Event} (h : Sound a)
    (hstep : Step rnd e a a') : StepCase rnd e a a' := by
  have hperform := hstep.call_eq
  cases hcall : e.call with
  | feed mono16 =>
      rcases feed_eq hrnd mono16 h with ⟨n, b, bytes, hfeed, hfed, hstores, hsound⟩
      rw [hcall] at hperform
      simp only [perform, hfeed, ok_bind, pure_eq_ok, Except.ok.injEq,
        Prod.mk.injEq] at hperform
      rcases hperform with ⟨hpushed, rfl⟩
      exact StepCase.fed mono16 bytes n hcall hfed hstores hsound hpushed.symm
  | finishStream =>
      rw [hcall] at hperform
      simp only [perform, pure_eq_ok, Except.ok.injEq, Prod.mk.injEq] at hperform
      rcases hperform with ⟨hpushed, rfl⟩
      refine StepCase.drained [] (by simp [hcall])
        (Drains.idle ⟨h.head_lt, h.tail_lt⟩ rfl rfl rfl rfl rfl) (fun _ => ?_)
        Or.inl
      rw [Event.sound, ← hpushed]
      rfl
  | setVolume v =>
      rw [hcall] at hperform
      simp only [perform, pure_eq_ok, Except.ok.injEq, Prod.mk.injEq] at hperform
      rcases hperform with ⟨hpushed, rfl⟩
      refine StepCase.drained [] (by simp [hcall])
        (Drains.idle ⟨h.head_lt, h.tail_lt⟩ rfl rfl rfl rfl rfl) (fun _ => ?_)
        Or.inl
      rw [Event.sound, ← hpushed]
      rfl
  | fill outLen =>
      rw [hcall] at hperform
      rcases bind_eq_ok.mp hperform with ⟨⟨p, b⟩, hfill, hend⟩
      simp only [pure_eq_ok, Except.ok.injEq, Prod.mk.injEq] at hend
      rcases hend with ⟨hpushed, rfl⟩
      rcases fillSlice_drains h.toInRange hfill with ⟨taken, hdrain, hwords⟩
      refine StepCase.drained taken (by simp [hcall]) hdrain (fun _ => ?_) ?_
      · rw [Event.sound, ← hpushed, List.flatMap_singleton, hwords]
      · intro hended
        rw [fillSlice_frame hfill] at hended
        exact Or.inl hended
  | tick inp =>
      rw [hcall] at hperform
      rcases bind_eq_ok.mp hperform with ⟨⟨started, p, b⟩, htick, hend⟩
      simp only [pure_eq_ok, Except.ok.injEq, Prod.mk.injEq] at hend
      rcases hend with ⟨hpushed, rfl⟩
      rcases tick_drains h.toInRange htick with ⟨taken, hdrain, hwords⟩
      refine StepCase.drained taken (by simp [hcall]) hdrain (fun hlegal => ?_) ?_
      · rw [Event.sound, ← hpushed, hwords (hlegal inp hcall)]
      · intro hended
        cases hstream : a.streaming with
        | true => exact Or.inr (tick_ends h.toInRange hstream htick hended).2.1
        | false => exact Or.inl rfl

structure Conserves (rnd : Rat -> Rat) (e : Event) (a a' : AudioOutput) :
    Prop where
  queue_eq : a.contents ++ e.stored = e.removed ++ a'.contents
  removed_whole : e.removed = (samplesOf e.removed).flatMap bytesOf
  sound_eq : StartsOk e a ->
    e.sound = encodeSamples rnd e.volume (samplesOf e.removed)

theorem Step.conserves (hrnd : F32.Rounding rnd) {e : Event} (h : Sound a)
    (hstep : Step rnd e a a') : Conserves rnd e a a' := by
  have hstored := hstep.stored_eq
  have hremoved := hstep.removed_eq
  cases Step.cases hrnd h hstep with
  | fed mono16 bytes _ _ _ hstores _ hpushed =>
      rw [hstores.stored_eq h.toInRange] at hstored
      rw [hstores.tail, Ring.contents_empty h.tail_lt] at hremoved
      refine ⟨?_, ?_, ?_⟩
      · rw [hstored, hremoved, hstores.contents_eq, List.nil_append]
      · rw [hremoved]
        rfl
      · intro _
        rw [Event.sound, hpushed, hremoved]
        rfl
  | drained taken _ hdrain hwords _ =>
      rw [hdrain.stored_eq h.toInRange] at hstored
      rw [hdrain.removed_eq h.toInRange] at hremoved
      refine ⟨?_, ?_, ?_⟩
      · rw [hstored, hremoved, List.append_nil, hdrain.contents_eq]
      · rw [hremoved, samplesOf_flatMap]
      · intro hlegal
        rw [hwords hlegal, hremoved, samplesOf_flatMap, hstep.volume_eq]

theorem Step.sound (hrnd : F32.Rounding rnd) {e : Event} (h : Sound a)
    (hstep : Step rnd e a a') : Sound a' := by
  cases Step.cases hrnd h hstep with
  | fed _ _ _ _ _ _ hsound _ => exact hsound
  | drained _ _ hdrain _ _ => exact hdrain.sound h

theorem perform_ok (hrnd : F32.Rounding rnd) (h : Sound a) (call : Call) :
    exists pushed a', perform rnd call a = .ok (pushed, a') := by
  cases call with
  | feed mono16 =>
      rcases feed_eq hrnd mono16 h with ⟨n, b, bytes, hfeed, _⟩
      exact ⟨[], b, by simp [perform, hfeed]⟩
  | finishStream => exact ⟨_, _, rfl⟩
  | setVolume v => exact ⟨_, _, rfl⟩
  | fill outLen =>
      rcases fillSlice_eq rnd h.toInRange outLen with ⟨taken, b, hfill, _⟩
      exact ⟨[queued rnd a.volume outLen taken], b, by simp [perform, hfill]⟩
  | tick inp =>
      rcases tick_ok rnd inp h.toInRange with
        ⟨⟨started, p, b⟩, htick⟩
      exact ⟨p.toList, b, by simp [perform, htick]⟩

end OneCall

/-!
## Whole runs
-/

section Runs

variable {rnd : Rat -> Rat} {a a' : AudioOutput} {es : List Event}

theorem beginStream_sound (rate : UInt32) (hring : a.ring ≠ []) :
    Sound (beginStream rate a) where
  head_lt := by simpa [beginStream] using List.length_pos_of_ne_nil hring
  tail_lt := by simpa [beginStream] using List.length_pos_of_ne_nil hring
  rate_ge := by
    simp only [beginStream]
    split
    · rename_i hrate
      exact hrate.1
    · decide
  frac_nonneg := by simp [beginStream]

theorem stopPlayback_sound (h : Sound a) : Sound (stopPlayback a) where
  head_lt := by simpa [stopPlayback] using h.cap_pos
  tail_lt := by simpa [stopPlayback] using h.cap_pos
  rate_ge := by simpa [stopPlayback] using h.rate_ge
  frac_nonneg := by simp [stopPlayback]

theorem beginStream_contents (rate : UInt32) (hring : a.ring ≠ []) :
    (beginStream rate a).contents = [] :=
  Ring.contents_empty (beginStream_sound rate hring).head_lt

theorem run_sound {guard : Event -> AudioOutput -> Prop}
    (hrnd : F32.Rounding rnd) (h : Sound a)
    (hrun : Run (Guarded guard (Step rnd)) a es a') : Sound a' :=
  hrun.invariant (fun _ _ _ hsound hstep =>
    Step.sound hrnd hsound hstep.2) h

theorem run_conserves (hrnd : F32.Rounding rnd) (h : Sound a)
    (hrun : Run (Guarded StartsOk (Step rnd)) a es a') :
    a.contents ++ es.flatMap Event.stored =
      (es.flatMap fun e => samplesOf e.removed).flatMap bytesOf ++
        a'.contents ∧
      es.flatMap Event.sound =
        es.flatMap fun e => encodeSamples rnd e.volume (samplesOf e.removed) := by
  induction hrun with
  | nil s => exact ⟨by simp, rfl⟩
  | cons hstep hrest ih =>
      have hone := Step.conserves hrnd h hstep.2
      rcases ih (Step.sound hrnd h hstep.2) with ⟨hqueue, hwords⟩
      constructor
      · rw [List.flatMap_cons, ← List.append_assoc, hone.queue_eq,
          List.append_assoc, hqueue, List.flatMap_cons, List.flatMap_append,
          ← hone.removed_whole, List.append_assoc]
      · rw [List.flatMap_cons, List.flatMap_cons, hwords, hone.sound_eq hstep.1]

def Emptied (a : AudioOutput) : Prop :=
  a.streaming = false -> a.contents = []

theorem Step.emptied (hrnd : F32.Rounding rnd) {e : Event} (h : Sound a)
    (hempty : Emptied a) (hstep : Step rnd e a a') : Emptied a' := by
  intro hended
  cases Step.cases hrnd h hstep with
  | fed mono16 bytes _ _ hfed hstores _ _ =>
      rw [hstores.streaming] at hended
      rw [hstores.contents_eq, hempty hended]
      cases hfed with
      | ignored _ => rfl
      | passThrough hstream _ =>
          rw [hended] at hstream
          cases hstream
      | resampled hstream _ =>
          rw [hended] at hstream
          cases hstream
  | drained taken _ hdrain _ hkept =>
      have hnil : a.contents = [] := (hkept hended).elim hempty id
      have hsplit := hdrain.contents_eq
      rw [hnil] at hsplit
      exact (List.append_eq_nil_iff.mp hsplit.symm).2

theorem run_emptied (hrnd : F32.Rounding rnd) (h : Sound a) (hempty : Emptied a)
    (hrun : Run (Guarded StartsOk (Step rnd)) a es a') : Emptied a' := by
  refine (hrun.invariant (P := fun b => Sound b ∧ Emptied b) ?_ ⟨h, hempty⟩).2
  intro e b c hb hstep
  exact ⟨Step.sound hrnd hb.1 hstep.2,
    Step.emptied hrnd hb.1 hb.2 hstep.2⟩

theorem fillSlice_padded {outLen : Nat} {p : Pushed}
    (hfill : fillSlice rnd outLen a = .ok (p, a')) : p.Padded := by
  rcases bind_eq_ok.mp hfill with ⟨⟨tail, out⟩, _, hend⟩
  cases hend
  unfold Pushed.Padded
  simp only [List.drop_left, List.length_append, List.length_replicate]
  rw [Nat.add_sub_cancel_left]

theorem tick_padded {inp : TickInput} {started : Bool} {handed : Option Pushed}
    (htick : tick rnd inp a = .ok (started, handed, a')) :
    forall p, p ∈ handed.toList -> p.Padded := by
  have hone {p q : Pushed} (hp : p.Padded) (hq : q ∈ (some p).toList) : q.Padded := by
    rw [List.mem_singleton.mp hq]
    exact hp
  intro p hp
  cases tick_cases htick with
  | refilled _ _ _ _ _ q _ hfill => exact hone (fillSlice_padded hfill) hp
  | launched _ _ _ _ _ _ _ q _ hfill _ => exact hone (fillSlice_padded hfill) hp
  | _ => cases hp

theorem run_padded (hrun : Run (Guarded StartsOk (Step rnd)) a es a') :
    forall e, e ∈ es -> forall p, p ∈ e.pushed -> p.Padded := by
  have hcall {e : Event} {a a' : AudioOutput} (hstep : Step rnd e a a') :
      forall p, p ∈ e.pushed -> p.Padded := by
    have hperform := hstep.call_eq
    intro p hp
    cases hcall : e.call with
    | fill outLen =>
        rw [hcall] at hperform
        rcases bind_eq_ok.mp hperform with ⟨⟨q, b⟩, hfill, hend⟩
        simp only [pure_eq_ok, Except.ok.injEq, Prod.mk.injEq] at hend
        rw [← hend.1, List.mem_singleton] at hp
        rw [hp]
        exact fillSlice_padded hfill
    | tick inp =>
        rw [hcall] at hperform
        rcases bind_eq_ok.mp hperform with ⟨⟨started, handed, b⟩, htick, hend⟩
        simp only [pure_eq_ok, Except.ok.injEq, Prod.mk.injEq] at hend
        rw [← hend.1] at hp
        exact tick_padded htick p hp
    | feed mono16 =>
        rw [hcall] at hperform
        rcases bind_eq_ok.mp hperform with ⟨_, _, hend⟩
        simp only [pure_eq_ok, Except.ok.injEq, Prod.mk.injEq] at hend
        rw [← hend.1] at hp
        cases hp
    | _ =>
        rw [hcall] at hperform
        simp only [perform, pure_eq_ok, Except.ok.injEq, Prod.mk.injEq] at hperform
        rw [← hperform.1] at hp
        cases hp
  induction hrun with
  | nil s =>
      intro e he
      cases he
  | cons hstep _ ih =>
      intro e he
      rcases List.mem_cons.mp he with hfirst | hlater
      · rw [hfirst]
        exact hcall hstep.2
      · exact ih e hlater

/-- Playback delivers the stream exactly once and in order.  In every run of a
stream the words handed to the DMA are the stored samples through the volume
curve, except for those still queued, with silence behind them to the end of each slice;
once playback has ended nothing is queued, and a pump step ends it only when the server is done, the ring is empty and the
transfer has run out.  No call faults, so every run can go on. -/
theorem stream_delivered_once (rate : UInt32) (hring : a.ring ≠ [])
    (hrun : Run (Guarded StartsOk (Step F32.round)) (beginStream rate a) es a') :
    es.flatMap Event.sound =
        es.flatMap (fun e =>
          encodeSamples F32.round e.volume (samplesOf e.removed)) ∧
      (forall e, e ∈ es -> forall p, p ∈ e.pushed -> p.Padded) ∧
      samplesOf (es.flatMap Event.stored) =
        es.flatMap (fun e => samplesOf e.removed) ++ samplesOf a'.contents ∧
      (a'.streaming = false -> a'.contents = []) ∧
      (forall inp started p b, a'.streaming = true ->
        tick F32.round inp a' = .ok (started, p, b) -> b.streaming = false ->
          a'.doneFlag = true ∧ a'.contents = [] ∧ a'.xfer ≠ none ∧
            inp.isDone = true) ∧
      (forall call, exists pushed b,
        perform F32.round call a' = .ok (pushed, b)) := by
  have hrnd := F32.rounding_round
  have hbegin := beginStream_sound rate hring
  have hsound := run_sound hrnd hbegin hrun
  rcases run_conserves hrnd hbegin hrun with ⟨hqueue, hwords⟩
  rw [beginStream_contents rate hring, List.nil_append] at hqueue
  refine ⟨hwords, run_padded hrun, ?_, run_emptied hrnd hbegin ?_ hrun, ?_, perform_ok hrnd hsound⟩
  · rw [hqueue, samplesOf_flatMap_append]
  · intro _
    exact beginStream_contents rate hring
  · intro inp started p b hstream htick hended
    exact tick_ends hsound.toInRange hstream htick hended

/-- Two samples fed, the stream finished, and one pump step that plays both. -/
theorem stream_delivered_once_two_samples :
    exists es b,
      Run (Guarded StartsOk (Step F32.round))
        (beginStream 16000 (withRing 8)) es b ∧
        es.flatMap Event.sound = [0, 0, 33, 5, 0, 0, 69, 10] ∧
        samplesOf (es.flatMap Event.stored) =
          es.flatMap (fun e => samplesOf e.removed) ++ samplesOf b.contents := by
  have hrun : Run (Guarded StartsOk (Step F32.round))
      (beginStream 16000 (withRing 8))
      [{ call := .feed [1, 2, 3, 4], volume := 80, offered := [0x0201, 0x0403],
         stored := [1, 2, 3, 4], removed := [], pushed := [] },
       { call := .finishStream, volume := 80, offered := [], stored := [],
         removed := [], pushed := [] },
       { call := .tick ⟨false, 0, 0, 8, true⟩, volume := 80, offered := [],
         stored := [], removed := [1, 2, 3, 4],
         pushed := [⟨[0, 0, 33, 5, 0, 0, 69, 10], 8⟩] }]
      { beginStream 16000 (withRing 8) with
        ring := [1, 2, 3, 4, 0, 0, 0, 0]
        head := 4
        tail := 4
        started := true
        doneFlag := true
        tx := none
        stream := none
        xfer := some ⟨.handle, .handle⟩ } := by
    refine Run.cons (t := { beginStream 16000 (withRing 8) with
      ring := [1, 2, 3, 4, 0, 0, 0, 0], head := 4 }) ⟨?_, ?_⟩ ?_
    · intro inp hcall
      cases hcall
    · exact ⟨by decide +kernel, rfl, by decide +kernel, by decide +kernel,
        by decide +kernel⟩
    refine Run.cons (t := { beginStream 16000 (withRing 8) with
      ring := [1, 2, 3, 4, 0, 0, 0, 0], head := 4, doneFlag := true })
      ⟨?_, ?_⟩ ?_
    · intro inp hcall
      cases hcall
    · exact ⟨by decide +kernel, rfl, by decide +kernel, by decide +kernel,
        by decide +kernel⟩
    refine Run.single ⟨?_, ?_⟩
    · intro inp hcall
      cases hcall
      rfl
    · exact ⟨by decide +kernel, rfl, by decide +kernel, by decide +kernel,
        by decide +kernel⟩
  exact ⟨_, _, hrun, by decide,
    (stream_delivered_once 16000 (by decide) hrun).2.2.1⟩

end Runs

end AudioOutput
end TWA
