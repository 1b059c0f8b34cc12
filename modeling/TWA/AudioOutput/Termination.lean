import TWA.AudioOutput.Alignment

/-!
# The end of a stream

A finished stream ends when its ring has run dry.  Draining takes whole samples,
so this happens exactly when the ring holds an even number of bytes; a lone last
byte is never taken, and a missing ring is never looked at.
-/

namespace TWA

open Foundation
open Foundation.Exec

namespace AudioOutput

/-! ## Reachable outputs -/

inductive Op where
  | beginStream (inputRate : UInt32)
  | stopPlayback
  | call (c : Call)
  deriving DecidableEq, Repr

def OpStep (rnd : Rat -> Rat) : Op -> AudioOutput -> AudioOutput -> Prop
  | .beginStream inputRate, a, a' => a' = beginStream inputRate a
  | .stopPlayback, a, a' => a' = stopPlayback a
  | .call c, a, a' => exists pushed, perform rnd c a = .ok (pushed, a')

def Fresh (a : AudioOutput) : Prop :=
  exists reserve, a = new reserve

def Handles (a : AudioOutput) : Prop :=
  a.xfer = none -> a.tx ≠ none ∧ a.stream ≠ none

structure Kept (a : AudioOutput) : Prop where
  handles : Handles a
  sound : a.ring ≠ [] -> Sound a
  silent : a.ring = [] -> a.xfer = none

section Reach

variable {rnd : Rat -> Rat} {a a' : AudioOutput}

theorem withRing_sound {cap : Nat} (hcap : 0 < cap) : Sound (withRing cap) where
  head_lt := by simpa [withRing] using hcap
  tail_lt := by simpa [withRing] using hcap
  rate_ge := by
    change (8000 : UInt32) ≤ 24000
    decide
  frac_nonneg := by simp [withRing]

theorem Fresh.kept (h : Fresh a) : Kept a := by
  rcases h with ⟨reserve, rfl⟩
  unfold new
  refine ⟨fun _ => ⟨by simp [withRing], by simp [withRing]⟩, fun hring => ?_,
    fun _ => rfl⟩
  apply withRing_sound
  simpa [withRing, Nat.pos_iff_ne_zero] using hring

theorem reclaim_handles (h : Handles a) :
    (reclaim a).tx ≠ none ∧ (reclaim a).stream ≠ none := by
  cases hxfer : a.xfer with
  | none =>
      rw [reclaim_of_none hxfer]
      exact h hxfer
  | some tr =>
      rw [reclaim_of_some hxfer]
      exact ⟨Option.some_ne_none _, Option.some_ne_none _⟩

theorem tick_handles (h : Handles a) {inp : TickInput} {started : Bool}
    {p : Option Pushed} (htick : tick rnd inp a = .ok (started, p, a')) :
    Handles a' := by
  have hback := reclaim_handles h
  cases tick_cases htick with
  | silent _ _ => exact h
  | finished _ _ _ => exact fun _ => hback
  | refilled _ _ _ _ _ p _ hfill =>
      rw [fillSlice_frame hfill]
      exact h
  | running _ _ _ => exact h
  | stopped _ _ => exact fun _ => hback
  | waiting _ _ _ => exact fun _ => hback
  | noHandles _ _ _ _ => exact fun _ => hback
  | launched _ _ _ _ _ _ _ _ b _ _ => exact fun hcontra => by cases hcontra
  | startFailed _ _ _ _ _ _ _ _ b _ _ =>
      exact fun _ => ⟨Option.some_ne_none _, Option.some_ne_none _⟩

theorem perform_silent (hring : a.ring = []) (hxfer : a.xfer = none) {c : Call}
    {pushed : List Pushed} (hcall : perform rnd c a = .ok (pushed, a')) :
    a'.ring = [] ∧ a'.xfer = none ∧ a'.tx = a.tx ∧ a'.stream = a.stream := by
  cases c with
  | feed mono16 =>
      have hfeed : feed rnd mono16 a = .ok (0, a) := by
        unfold feed
        rw [if_pos (Or.inl hring)]
        rfl
      simp only [perform, hfeed] at hcall
      cases hcall
      exact ⟨hring, hxfer, rfl, rfl⟩
  | finishStream =>
      cases hcall
      exact ⟨hring, hxfer, rfl, rfl⟩
  | setVolume v =>
      cases hcall
      exact ⟨hring, hxfer, rfl, rfl⟩
  | fill outLen =>
      rcases bind_eq_ok.mp hcall with ⟨⟨p, b⟩, hfill, hend⟩
      cases hend
      rw [fillSlice_frame hfill]
      exact ⟨hring, hxfer, rfl, rfl⟩
  | tick inp =>
      have htick : tick rnd inp a = .ok (false, none, a) := by
        unfold tick
        rw [if_pos ⟨hring, hxfer⟩]
        rfl
      simp only [perform, htick] at hcall
      cases hcall
      exact ⟨hring, hxfer, rfl, rfl⟩

theorem perform_handles (hrnd : F32.Rounding rnd) (h : Sound a)
    (hhandles : Handles a) {c : Call} {pushed : List Pushed}
    (hcall : perform rnd c a = .ok (pushed, a')) : Handles a' := by
  cases c with
  | feed mono16 =>
      rcases feed_eq hrnd mono16 h with ⟨n, b, bytes, hfeed, _, hstores, _⟩
      simp only [perform, hfeed] at hcall
      cases hcall
      rw [hstores.frame]
      exact hhandles
  | finishStream =>
      cases hcall
      exact hhandles
  | setVolume v =>
      cases hcall
      exact hhandles
  | fill outLen =>
      rcases bind_eq_ok.mp hcall with ⟨⟨p, b⟩, hfill, hend⟩
      cases hend
      rw [fillSlice_frame hfill]
      exact hhandles
  | tick inp =>
      rcases bind_eq_ok.mp hcall with ⟨⟨started, p, b⟩, htick, hend⟩
      cases hend
      exact tick_handles hhandles htick

theorem step_of_perform {c : Call} {pushed : List Pushed}
    (hcall : perform rnd c a = .ok (pushed, a')) :
    exists e, e.call = c ∧ Step rnd e a a' :=
  ⟨⟨c, a.volume, offered rnd c a, Ring.contents a'.ring a'.head a.head,
    Ring.contents a.ring a'.tail a.tail, pushed⟩, rfl,
    ⟨hcall, rfl, rfl, rfl, rfl⟩⟩

theorem perform_kept (hrnd : F32.Rounding rnd) (h : Kept a) {c : Call}
    {pushed : List Pushed} (hcall : perform rnd c a = .ok (pushed, a')) :
    Kept a' := by
  by_cases hring : a.ring = []
  · have hxfer := h.silent hring
    rcases perform_silent hring hxfer hcall with ⟨hring', hxfer', htx, hstream⟩
    refine ⟨fun _ => ?_, fun hcontra => absurd hring' hcontra, fun _ => hxfer'⟩
    rw [htx, hstream]
    exact h.handles hxfer
  · have hsound := h.sound hring
    rcases step_of_perform hcall with ⟨e, _, hstep⟩
    have hsound' := Step.sound hrnd hsound hstep
    exact ⟨perform_handles hrnd hsound h.handles hcall, fun _ => hsound',
      fun hcontra => absurd hcontra hsound'.ring_ne_nil⟩

theorem OpStep.kept (hrnd : F32.Rounding rnd) {op : Op} (h : Kept a)
    (hstep : OpStep rnd op a a') : Kept a' := by
  cases op with
  | beginStream inputRate =>
      cases hstep
      refine ⟨fun _ => reclaim_handles h.handles, fun hring => ?_, fun _ => ?_⟩
      · exact beginStream_sound inputRate (by simpa [beginStream] using hring)
      · simp [beginStream]
  | stopPlayback =>
      cases hstep
      refine ⟨fun _ => reclaim_handles h.handles, fun hring => ?_, fun _ => ?_⟩
      · exact stopPlayback_sound (h.sound (by simpa [stopPlayback] using hring))
      · simp [stopPlayback]
  | call c =>
      rcases hstep with ⟨pushed, hcall⟩
      exact perform_kept hrnd h hcall

theorem reachable_kept (hrnd : F32.Rounding rnd)
    (h : Reachable Fresh (OpStep rnd) a) : Kept a :=
  h.invariant (fun _ hfresh => hfresh.kept)
    (fun _ _ _ hkept hstep => OpStep.kept hrnd hkept hstep)

end Reach

/-!
## Pumping alone

From some point on only `tick` is called.  A start succeeds, a slice offered has
room for a sample, and a transfer that received nothing in one step has run out
in the next; the flag beside the output says whether that was so.
-/

structure Pumps (rnd : Rat -> Rat) (inp : TickInput) (s t : AudioOutput × Bool) :
    Prop where
  startOk : inp.startOk = true
  prefill_room : sampleBytes ≤ inp.prefillSlice
  push_room : 0 < inp.availableBytes -> sampleBytes ≤ inp.pushSlice
  starved_done : s.2 = true -> inp.isDone = true
  tick_eq : exists started p, tick rnd inp s.1 = .ok (started, p, t.1) ∧
    t.2 = (s.1.xfer.isSome && t.1.xfer.isSome && p.isNone)

/-- Whatever the hardware does, playback is over after `n` pump steps. -/
def EndsWithin (rnd : Rat -> Rat) (n : Nat) (a : AudioOutput) : Prop :=
  forall inps b starved, Run (Pumps rnd) (a, false) inps (b, starved) ->
    n ≤ inps.length -> b.streaming = false ∧ b.isActive = .ok false

/-- A finished stream that is still playing, with the given number of bytes left
modulo two. -/
structure Finishing (odd : Nat) (a : AudioOutput) : Prop where
  sound : Sound a
  streaming : a.streaming = true
  doneFlag : a.doneFlag = true
  parity : a.contents.length % 2 = odd

structure Over (a : AudioOutput) : Prop where
  inRange : InRange a
  streaming : a.streaming = false
  empty : a.contents = []

def rank (s : AudioOutput × Bool) : Nat :=
  s.1.contents.length +
    if s.1.xfer.isNone then 2 else if s.2 then 0 else 1

section Pumping

variable {rnd : Rat -> Rat} {a a' : AudioOutput} {odd : Nat}

theorem Over.isActive_eq (h : Over a) : a.isActive = .ok false := by
  unfold isActive
  rw [h.streaming, h.inRange.buffered_eq, h.empty]
  rfl

theorem fillSlice_length (h : InRange a) {outLen : Nat} {p : Pushed}
    (hfill : fillSlice rnd outLen a = .ok (p, a')) :
    a'.contents.length + 2 * min (a.contents.length / 2) (outLen / sampleBytes) =
      a.contents.length := by
  rcases fillSlice_eq rnd h outLen with ⟨taken, b, heq, hlen, htakes⟩
  rw [heq] at hfill
  cases hfill
  have hsplit := congrArg List.length htakes.contents_eq
  rw [List.length_append, length_flatMap_bytesOf, hlen] at hsplit
  omega

theorem Finishing.ready (h : Finishing odd a) : Ready a :=
  Or.inr (Or.inl h.doneFlag)

theorem Finishing.drained_iff (h : Finishing odd a) {b : Bool}
    (hdrained : a.drained = .ok b) : b = decide (a.contents = []) := by
  rw [h.sound.drained_eq, h.streaming, h.doneFlag] at hdrained
  exact (Except.ok.inj hdrained).symm

theorem Finishing.fill (h : Finishing odd a) {outLen : Nat} {p : Pushed}
    (hfill : fillSlice rnd outLen a = .ok (p, a')) :
    Finishing odd a' ∧
      (sampleBytes ≤ outLen -> 2 ≤ a.contents.length ->
        a'.contents.length + 2 ≤ a.contents.length) ∧
      a'.contents.length ≤ a.contents.length := by
  have hlen := fillSlice_length h.sound.toInRange hfill
  have hparity := h.parity
  have hframe := fillSlice_frame hfill
  rcases fillSlice_drains h.sound.toInRange hfill with ⟨taken, hdrain, _⟩
  refine ⟨⟨hdrain.sound h.sound, ?_, ?_, ?_⟩, ?_, ?_⟩
  · rw [hframe]
    exact h.streaming
  · rw [hframe]
    exact h.doneFlag
  · omega
  · intro hroom hsome
    have hone : 1 ≤ outLen / sampleBytes := (Nat.one_le_div_iff (by decide)).mpr hroom
    omega
  · omega

theorem Finishing.congr (h : Finishing odd a) (hring : a'.ring = a.ring)
    (hhead : a'.head = a.head) (htail : a'.tail = a.tail)
    (hrate : a'.inRate = a.inRate) (hfrac : a'.rFrac = a.rFrac)
    (hstream : a'.streaming = a.streaming) (hdone : a'.doneFlag = a.doneFlag) :
    Finishing odd a' := by
  have hcontents : a'.contents = a.contents := by
    unfold contents
    rw [hring, hhead, htail]
  refine ⟨⟨⟨?_, ?_⟩, ?_, ?_⟩, ?_, ?_, ?_⟩
  · rw [hring, hhead]
    exact h.sound.head_lt
  · rw [hring, htail]
    exact h.sound.tail_lt
  · rw [hrate]
    exact h.sound.rate_ge
  · rw [hfrac]
    exact h.sound.frac_nonneg
  · rw [hstream]
    exact h.streaming
  · rw [hdone]
    exact h.doneFlag
  · rw [hcontents]
    exact h.parity

/-- What one pump step does to a finished stream: it ends it, or lets the
transfer run, or hands over a slice. -/
inductive PumpCase (odd : Nat) (inp : TickInput) (a : AudioOutput) :
    Option Pushed -> AudioOutput -> Prop where
  | ended (b : AudioOutput) (hempty : a.contents = []) (hover : Over b) :
      PumpCase odd inp a none b
  | running (hxfer : a.xfer ≠ none) (hrun : inp.isDone = false) :
      PumpCase odd inp a none a
  | pushed (p : Pushed) (b : AudioOutput) (hfinishing : Finishing odd b)
      (hxfer : b.xfer ≠ none)
      (hle : b.contents.length ≤ a.contents.length)
      (hless : a.xfer = none ∨ a.contents ≠ [] ∧
        (2 ≤ a.contents.length ->
          b.contents.length + 2 ≤ a.contents.length)) :
      PumpCase odd inp a (some p) b

theorem Finishing.tick_cases (h : Finishing odd a) (hhandles : Handles a)
    {inp : TickInput} {started : Bool} {p : Option Pushed}
    (hstartOk : inp.startOk = true) (hprefill : sampleBytes ≤ inp.prefillSlice)
    (hpush : 0 < inp.availableBytes -> sampleBytes ≤ inp.pushSlice)
    (htick : tick rnd inp a = .ok (started, p, a')) : PumpCase odd inp a p a' := by
  have hready : Ready a := Or.inr (Or.inl h.doneFlag)
  have hback := h.sound.toInRange.reclaim
  have hsome (hdrained : a.drained = .ok false) : a.contents ≠ [] := by
    simpa using h.drained_iff hdrained
  cases AudioOutput.tick_cases htick with
  | silent hring _ => exact absurd hring h.sound.ring_ne_nil
  | finished _ _ hdrained =>
      have hempty : a.contents = [] := by
        simpa using h.drained_iff hdrained
      exact PumpCase.ended _ hempty
        ⟨⟨hback.head_lt, hback.tail_lt⟩, rfl, by simpa [contents] using hempty⟩
  | refilled hxfer hrun hdrained _ hroom p _ hfill =>
      rcases h.fill hfill with ⟨hfinishing, hless, hle⟩
      refine PumpCase.pushed p a' hfinishing ?_ hle
        (Or.inr ⟨hsome hdrained, hless (hpush hroom)⟩)
      rw [fillSlice_frame hfill]
      exact hxfer
  | running hxfer hrun _ => exact PumpCase.running hxfer hrun
  | stopped _ hidle =>
      rw [h.streaming] at hidle
      cases hidle
  | waiting _ _ hnot => exact absurd hready hnot
  | noHandles _ _ _ hmissing =>
      have hhome := reclaim_handles hhandles
      exact (hmissing.elim hhome.1 hhome.2).elim
  | launched hrestart _ _ tx stream _ _ p b hfill _ =>
      have hfresh : Finishing odd
          { reclaim a with started := true, tx := none, stream := none } :=
        h.congr (by simp) (by simp) (by simp) (by simp) (by simp) (by simp)
          (by simp)
      rcases hfresh.fill hfill with ⟨hfinishing, hless, hle⟩
      have hsame : contents
          { reclaim a with started := true, tx := none, stream := none } =
            a.contents := reclaim_contents a
      rw [hsame] at hless hle
      refine PumpCase.pushed p _
        (hfinishing.congr rfl rfl rfl rfl rfl rfl rfl) (Option.some_ne_none _)
        hle ?_
      rcases hrestart with ⟨hxfer, _⟩ | ⟨_, _, hdrained⟩
      · exact Or.inl hxfer
      · exact Or.inr ⟨hsome hdrained, hless hprefill⟩
  | startFailed _ _ _ _ _ _ _ _ _ _ hfailed =>
      rw [hstartOk] at hfailed
      cases hfailed

theorem Over.pumps {inp : TickInput} {s t : AudioOutput × Bool} (h : Over s.1)
    (hpumps : Pumps rnd inp s t) : Over t.1 := by
  rcases hpumps.tick_eq with ⟨started, p, htick, _⟩
  have hback := h.inRange.reclaim
  have hidle (hcontra : s.1.streaming = true) : False := by
    rw [h.streaming] at hcontra
    cases hcontra
  generalize t.1 = b at htick
  cases AudioOutput.tick_cases htick with
  | silent _ _ => exact h
  | finished _ _ _ =>
      exact ⟨⟨hback.head_lt, hback.tail_lt⟩, rfl, by simpa [contents] using h.empty⟩
  | refilled _ _ _ hstream _ _ _ _ => exact (hidle hstream).elim
  | running _ _ _ => exact h
  | stopped _ _ =>
      exact ⟨hback, by simpa using h.streaming, by simpa using h.empty⟩
  | waiting _ hstream _ => exact (hidle hstream).elim
  | noHandles _ hstream _ _ => exact (hidle hstream).elim
  | launched _ hstream _ _ _ _ _ _ _ _ _ => exact (hidle hstream).elim
  | startFailed _ hstream _ _ _ _ _ _ _ _ _ => exact (hidle hstream).elim

theorem Pumps.lowers {inp : TickInput} {s t : AudioOutput × Bool}
    (h : Finishing 0 s.1) (hhandles : Handles s.1) (hpumps : Pumps rnd inp s t) :
    Over t.1 ∨ ((Finishing 0 t.1 ∧ Handles t.1) ∧ rank t < rank s) := by
  rcases s with ⟨a, starved⟩
  rcases t with ⟨a', starved'⟩
  rcases hpumps with ⟨hstartOk, hprefill, hpush, hstarved, started, p, htick, hflag⟩
  simp only at h hhandles hstarved htick hflag ⊢
  have hhandles' := tick_handles hhandles htick
  cases h.tick_cases hhandles hstartOk hprefill hpush htick with
  | ended _ _ hover => exact Or.inl hover
  | running hxfer hrun =>
      refine Or.inr ⟨⟨h, hhandles⟩, ?_⟩
      have hfed : starved = false := by
        cases hcase : starved with
        | false => rfl
        | true =>
            rw [hstarved hcase] at hrun
            cases hrun
      have hsome : a.xfer.isSome = true := Option.isSome_iff_ne_none.mpr hxfer
      have hstarves : starved' = true := by
        rw [hflag, hsome]
        rfl
      simp [rank, hxfer, hfed, hstarves]
  | pushed p _ hfinishing hxfer hle hless =>
      refine Or.inr ⟨⟨hfinishing, hhandles'⟩, ?_⟩
      have hsome : a'.xfer.isSome = true := Option.isSome_iff_ne_none.mpr hxfer
      have hfed : starved' = false := by simp [hflag]
      have hpause : rank (a', starved') = a'.contents.length + 1 := by
        simp [rank, hfed, hxfer]
      rw [hpause]
      rcases hless with hnone | ⟨hsomeLeft, hless⟩
      · simp only [rank, hnone, Option.isNone_none, if_true]
        omega
      · have hparity := h.parity
        have hpos := List.length_pos_of_ne_nil hsomeLeft
        have hlower := hless (by omega)
        change _ < a.contents.length + _
        omega

theorem Finishing.ends (h : Finishing 0 a) (hhandles : Handles a) :
    EndsWithin rnd (a.contents.length + 3) a := by
  intro inps b starved hrun hlen
  have hover : Over b := by
    refine Run.ends (fun s => Over s.1) (fun s => Finishing 0 s.1 ∧ Handles s.1)
      rank (fun _ _ _ hgoal hstep => hgoal.pumps hstep)
      (fun _ _ _ hinv hstep => Pumps.lowers hinv.1 hinv.2 hstep) hrun
      ⟨h, hhandles⟩ ?_
    simp only [rank]
    split
    · omega
    · split <;> omega
  exact ⟨hover.streaming, hover.isActive_eq⟩

def runOut : TickInput :=
  { isDone := true
    availableBytes := 0
    pushSlice := 0
    prefillSlice := sampleBytes
    startOk := true }

theorem Pumps.of_tick {s : AudioOutput × Bool} {started : Bool}
    {p : Option Pushed} (htick : tick rnd runOut s.1 = .ok (started, p, a')) :
    exists starved, Pumps rnd runOut s (a', starved) :=
  ⟨s.1.xfer.isSome && a'.xfer.isSome && p.isNone,
    ⟨rfl, Nat.le_refl _, fun hcontra => absurd hcontra (Nat.lt_irrefl 0), fun _ => rfl,
      started, p, htick, rfl⟩⟩

theorem Finishing.odd_goes_on {s : AudioOutput × Bool} (h : Finishing 1 s.1)
    (hhandles : Handles s.1) :
    exists inp t, Pumps rnd inp s t ∧ Finishing 1 t.1 ∧ Handles t.1 := by
  rcases tick_ok rnd runOut h.sound.toInRange with
    ⟨⟨started, p, b⟩, htick⟩
  rcases Pumps.of_tick htick with ⟨starved, hpumps⟩
  refine ⟨runOut, (b, starved), hpumps, ?_, tick_handles hhandles htick⟩
  cases h.tick_cases hhandles rfl (Nat.le_refl _)
    (fun hcontra => absurd hcontra (Nat.lt_irrefl 0)) htick with
  | ended _ hempty _ =>
      have hparity := h.parity
      rw [hempty] at hparity
      cases hparity
  | running _ hrun => cases hrun
  | pushed _ _ hfinishing _ _ _ => exact hfinishing

theorem silent_goes_on {s : AudioOutput × Bool} (hring : s.1.ring = [])
    (hxfer : s.1.xfer = none) :
    exists inp starved, Pumps rnd inp s (s.1, starved) := by
  have htick : tick rnd runOut s.1 = .ok (false, none, s.1) := by
    unfold tick
    rw [if_pos ⟨hring, hxfer⟩]
    rfl
  exact ⟨runOut, Pumps.of_tick htick⟩

theorem not_endsWithin {P : AudioOutput × Bool -> Prop}
    (hnext : forall s, P s -> exists inp t, Pumps rnd inp s t ∧ P t)
    (hstream : forall s, P s -> s.1.streaming = true) (h : P (a, false))
    (n : Nat) : ¬ EndsWithin rnd n a := by
  intro hends
  rcases Run.forever hnext h n with ⟨inps, ⟨b, starved⟩, hlen, hrun, hb⟩
  have hstopped := (hends inps b starved hrun (by omega)).1
  rw [hstream _ hb] at hstopped
  cases hstopped

end Pumping

/-- A finished stream ends exactly when there is a ring and it holds an even number
of bytes; the bound is three steps more than bytes, and otherwise no number of
steps is enough. -/
theorem finished_stream_ends_iff {a : AudioOutput}
    (hreach : Reachable Fresh (OpStep F32.round) a) (hstream : a.streaming = true)
    (hdone : a.doneFlag = true) :
    ((exists n, EndsWithin F32.round n a) <->
      a.ring ≠ [] ∧ exists n, a.buffered = .ok n ∧ n % 2 = 0) ∧
      (a.ring ≠ [] -> forall n, a.buffered = .ok n -> n % 2 = 0 ->
        EndsWithin F32.round (n + 3) a) := by
  have hkept := reachable_kept F32.rounding_round hreach
  have hbound (hring : a.ring ≠ []) (n : Nat) (hn : a.buffered = .ok n)
      (heven : n % 2 = 0) : EndsWithin F32.round (n + 3) a := by
    have hsound := hkept.sound hring
    rw [hsound.buffered_eq] at hn
    cases hn
    exact Finishing.ends ⟨hsound, hstream, hdone, heven⟩ hkept.handles
  refine ⟨⟨?_, ?_⟩, hbound⟩
  · intro hfinal
    rcases hfinal with ⟨n, hends⟩
    by_cases hring : a.ring = []
    · refine absurd hends (not_endsWithin
        (P := fun s => s.1.ring = [] ∧ s.1.xfer = none ∧ s.1.streaming = true)
        ?_ (fun _ hs => hs.2.2) ⟨hring, hkept.silent hring, hstream⟩ n)
      intro s hs
      rcases silent_goes_on hs.1 hs.2.1 with ⟨inp, starved, hpumps⟩
      exact ⟨inp, _, hpumps, hs⟩
    · have hsound := hkept.sound hring
      refine ⟨hring, a.contents.length, hsound.buffered_eq, ?_⟩
      by_contra hodd
      exact absurd hends (not_endsWithin
        (P := fun s => Finishing 1 s.1 ∧ Handles s.1)
        (fun _ hs => hs.1.odd_goes_on hs.2) (fun _ hs => hs.1.streaming)
        ⟨⟨hsound, hstream, hdone, Nat.mod_two_ne_zero.mp hodd⟩, hkept.handles⟩ n)
  · intro heven
    rcases heven with ⟨hring, n, hn, heven⟩
    exact ⟨n + 3, hbound hring n hn heven⟩

theorem fresh_smallest : Fresh (withRing (512 * 1024)) :=
  ⟨fun size => decide (size ≤ 512 * 1024), new_smallest.symm⟩

theorem withRing_ne_nil {cap : Nat} (h : 0 < cap) : (withRing cap).ring ≠ [] :=
  List.ne_nil_of_length_pos (by simpa [withRing] using h)

theorem reachable_finished (bytes : List UInt8) (hne : bytes ≠ [])
    (hlen : bytes.length < 512 * 1024) :
    exists a, Reachable Fresh (OpStep F32.round) a ∧ a.streaming = true ∧
      a.doneFlag = true ∧ a.xfer = none ∧ a.contents = bytes ∧ a.ring ≠ [] := by
  have hfresh := fresh_smallest
  generalize 512 * 1024 = cap at hfresh hlen
  have hring : (withRing cap).ring ≠ [] := withRing_ne_nil (by omega)
  have hsize : (beginStream 16000 (withRing cap)).ring.length = cap := by
    simp [beginStream, withRing]
  rcases step_passThrough F32.rounding_round bytes (beginStream_sound 16000 hring)
      rfl rfl hne with
    ⟨e, b, hstep, hcall, _, _, hsound, hstores⟩
  have hcontents : b.contents = bytes := by
    rw [hstores.contents_eq, beginStream_contents 16000 hring, hsize,
      List.take_of_length_le]
    · rfl
    · simp
      omega
  have hfed := hstep.call_eq
  rw [hcall] at hfed
  have hbegin : Reachable Fresh (OpStep F32.round)
      (beginStream 16000 (withRing cap)) :=
    (Reachable.refl hfresh).step_trans (l := .beginStream 16000) rfl
  have hb : Reachable Fresh (OpStep F32.round) b :=
    hbegin.step_trans (l := .call (.feed bytes)) ⟨_, hfed⟩
  have hreach : Reachable Fresh (OpStep F32.round) (finishStream b) :=
    hb.step_trans (l := .call .finishStream) ⟨[], rfl⟩
  exact ⟨finishStream b, hreach, hstores.streaming, rfl, hstores.xfer, hcontents,
    hsound.ring_ne_nil⟩

/-- A stream of two samples ends within seven steps. -/
theorem finished_stream_ends_iff_two :
    exists a, Reachable Fresh (OpStep F32.round) a ∧ a.contents = [1, 2, 3, 4] ∧
      EndsWithin F32.round 7 a := by
  rcases reachable_finished [1, 2, 3, 4] (by decide) (by decide) with
    ⟨a, hreach, hstream, hdone, _, hcontents, hring⟩
  have hbuffered : a.buffered = .ok 4 := by
    rw [((reachable_kept F32.rounding_round hreach).sound hring).buffered_eq, hcontents]
    rfl
  exact ⟨a, hreach, hcontents,
    (finished_stream_ends_iff hreach hstream hdone).2 hring 4 hbuffered rfl⟩

/-- One byte fed to the smallest ring, and the stream finished. -/
theorem odd_byte_never_ends :
    exists a, Reachable Fresh (OpStep F32.round) a ∧ a.streaming = true ∧
      a.doneFlag = true ∧ a.buffered = .ok 1 ∧
      forall n, ¬ EndsWithin F32.round n a := by
  rcases reachable_finished [7] (by decide) (by decide) with
    ⟨a, hreach, hstream, hdone, _, hcontents, hring⟩
  have hkept := reachable_kept F32.rounding_round hreach
  have hfinishing : Finishing 1 a :=
    ⟨hkept.sound hring, hstream, hdone, by rw [hcontents]; rfl⟩
  refine ⟨a, hreach, hstream, hdone, ?_, ?_⟩
  · rw [hfinishing.sound.buffered_eq, hcontents]
    rfl
  · exact not_endsWithin (P := fun s => Finishing 1 s.1 ∧ Handles s.1)
      (fun _ hs => hs.1.odd_goes_on hs.2) (fun _ hs => hs.1.streaming)
      ⟨hfinishing, hkept.handles⟩

end AudioOutput
end TWA
