import TWA.AudioOutput.Safety
import TWA.AudioOutput.Tone

/-!
# Handles and flags

Three fields share two handles: a transfer in flight owns both, and otherwise they
are at home.  The flags follow the transfer: what is in flight has been started,
what has been started is streaming, and what is not streaming has nothing left.
-/

namespace TWA

open Foundation
open Foundation.Exec

namespace AudioOutput

inductive Usage where
  | operation (op : Operation)
  | playTone (hw : Nat -> ToneRound) (freqHz durationMs : UInt32)

def UseStep (rnd sinf : Rat -> Rat) : Usage -> AudioOutput -> AudioOutput -> Prop
  | .operation op, a, a' => operate rnd op a = .ok a'
  | .playTone hw freqHz durationMs, a, a' =>
      exists handed, playTone rnd sinf hw freqHz durationMs a = .ok (handed, a')

def Owned (a : AudioOutput) : Prop :=
  (a.xfer ≠ none ∧ a.tx = none ∧ a.stream = none) ∨
    (a.xfer = none ∧ a.tx ≠ none ∧ a.stream ≠ none)

structure Consistent (a : AudioOutput) : Prop where
  owned : Owned a
  playing : a.xfer ≠ none -> a.streaming = true ∧ a.started = true
  started : a.started = true -> a.streaming = true
  empty : a.streaming = false -> a.buffered = .ok 0
  active : a.isActive = .ok a.streaming

section Flags

variable {a a' : AudioOutput}

structure Flags (a : AudioOutput) : Prop where
  owned : Owned a
  playing : a.xfer ≠ none -> a.streaming = true ∧ a.started = true
  started : a.started = true -> a.streaming = true

namespace Flags

theorem congr (h : Flags a) (hxfer : a'.xfer = a.xfer) (htx : a'.tx = a.tx)
    (hstream : a'.stream = a.stream) (hstreaming : a'.streaming = a.streaming)
    (hstarted : a'.started = a.started) : Flags a' where
  owned := by
    unfold Owned
    rw [hxfer, htx, hstream]
    exact h.owned
  playing := by
    rw [hxfer, hstreaming, hstarted]
    exact h.playing
  started := by
    rw [hstarted, hstreaming]
    exact h.started

theorem home (hxfer : a.xfer = none) (htx : a.tx ≠ none) (hstream : a.stream ≠ none)
    (hstarted : a.started = true -> a.streaming = true) : Flags a :=
  ⟨Or.inr ⟨hxfer, htx, hstream⟩, fun hsome => absurd hxfer hsome, hstarted⟩

theorem handles (h : Flags a) : Handles a := by
  intro hnone
  rcases h.owned with ⟨hsome, _⟩ | ⟨_, hhome⟩
  · exact absurd hnone hsome
  · exact hhome

theorem reclaim (h : Flags a) : Flags (AudioOutput.reclaim a) := by
  have hback := reclaim_handles h.handles
  exact home (reclaim_xfer a) hback.1 hback.2 (by simpa using h.started)

end Flags

theorem tick_flags {rnd : Rat -> Rat} {inp : TickInput} {started : Bool}
    {p : Option Pushed} (h : Flags a) (htick : tick rnd inp a = .ok (started, p, a')) :
    Flags a' := by
  have hback := reclaim_handles h.handles
  cases tick_cases htick with
  | silent _ _ => exact h
  | finished _ _ _ =>
      exact Flags.home (reclaim_xfer a) hback.1 hback.2 fun hcontra => by cases hcontra
  | refilled _ _ _ _ _ p _ hfill =>
      rw [fillSlice_frame hfill]
      exact h.congr rfl rfl rfl rfl rfl
  | running _ _ _ => exact h
  | stopped _ _ => exact h.reclaim
  | waiting _ _ _ => exact h.reclaim
  | noHandles _ hstream _ _ =>
      exact Flags.home (reclaim_xfer a) hback.1 hback.2 fun _ => by simpa using hstream
  | launched _ hstream _ tx stream _ _ p b hfill _ =>
      have hstreaming : b.streaming = true := by
        rw [fillSlice_frame hfill]
        simpa using hstream
      have hstarted : b.started = true := by rw [fillSlice_frame hfill]
      have htx : b.tx = none := by rw [fillSlice_frame hfill]
      have hbuf : b.stream = none := by rw [fillSlice_frame hfill]
      exact ⟨Or.inl ⟨Option.some_ne_none _, htx, hbuf⟩, fun _ => ⟨hstreaming, hstarted⟩,
        fun _ => hstreaming⟩
  | startFailed _ hstream _ tx stream _ _ p b hfill _ =>
      have hstreaming : b.streaming = true := by
        rw [fillSlice_frame hfill]
        simpa using hstream
      have hxfer : b.xfer = none := by
        rw [fillSlice_frame hfill]
        exact reclaim_xfer a
      exact Flags.home hxfer (Option.some_ne_none _) (Option.some_ne_none _)
        fun _ => hstreaming

end Flags

/-! ## With a ring -/

section Ring

variable {rnd sinf : Rat -> Rat} {a a' : AudioOutput}

/-- The invariant behind `Consistent`. -/
structure Orderly (a : AudioOutput) : Prop extends Sound a where
  flags : Flags a
  emptied : Emptied a

namespace Orderly

theorem consistent (h : Orderly a) : Consistent a := by
  have hempty (hstream : a.streaming = false) : a.buffered = .ok 0 := by
    rw [h.buffered_eq, h.emptied hstream]
    rfl
  refine ⟨h.flags.owned, h.flags.playing, h.flags.started, hempty, ?_⟩
  unfold isActive
  cases hstream : a.streaming with
  | true => rfl
  | false =>
      rw [hempty hstream]
      rfl

theorem perform (hrnd : F32.Rounding rnd) (h : Orderly a) {c : Call} {pushed : List Pushed}
    (hcall : AudioOutput.perform rnd c a = .ok (pushed, a')) (hflags : Flags a') :
    Orderly a' := by
  rcases step_of_perform hcall with ⟨e, _, hstep⟩
  exact ⟨Step.sound hrnd h.toSound hstep, hflags,
    Step.emptied hrnd h.toSound h.emptied hstep⟩

theorem beginStream (h : Orderly a) (inputRate : UInt32) :
    Orderly (AudioOutput.beginStream inputRate a) where
  toSound := beginStream_sound inputRate h.ring_ne_nil
  flags := by
    have hback := reclaim_handles h.flags.handles
    exact Flags.home (reclaim_xfer a) hback.1 hback.2 fun _ => rfl
  emptied := fun _ => beginStream_contents inputRate h.ring_ne_nil

theorem stopPlayback (h : Orderly a) : Orderly (AudioOutput.stopPlayback a) where
  toSound := stopPlayback_sound h.toSound
  flags := by
    have hback := reclaim_handles h.flags.handles
    exact Flags.home (reclaim_xfer a) hback.1 hback.2 fun hcontra => by cases hcontra
  emptied := fun _ => Ring.contents_empty (stopPlayback_sound h.toSound).head_lt

theorem operate (hrnd : F32.Rounding rnd) (h : Orderly a) {op : Operation}
    (hop : AudioOutput.operate rnd op a = .ok a') : Orderly a' := by
  cases op with
  | begin =>
      cases hop
      exact h
  | beginStream inputRate =>
      cases hop
      exact h.beginStream inputRate
  | feed mono16 =>
      rcases bind_eq_ok.mp hop with ⟨⟨n, b⟩, hfeed, hend⟩
      cases hend
      have hcall : AudioOutput.perform rnd (.feed mono16) a = .ok ([], a') := by
        simp only [AudioOutput.perform, hfeed, ok_bind, pure_eq_ok]
      rcases feed_eq hrnd mono16 h.toSound with ⟨_, b, bytes, heq, _, hstores, _⟩
      rw [hfeed, Except.ok.injEq, Prod.mk.injEq] at heq
      rw [← heq.2] at hstores
      refine h.perform hrnd hcall (h.flags.congr ?_ ?_ ?_ ?_ ?_)
      all_goals rw [hstores.frame]
  | finishStream =>
      cases hop
      exact h.perform hrnd (c := .finishStream) rfl (h.flags.congr rfl rfl rfl rfl rfl)
  | stopPlayback =>
      cases hop
      exact h.stopPlayback
  | setVolume v =>
      cases hop
      exact h.perform hrnd (c := .setVolume v) rfl (h.flags.congr rfl rfl rfl rfl rfl)
  | tick inp =>
      rcases bind_eq_ok.mp hop with ⟨⟨started, p, b⟩, htick, hend⟩
      cases hend
      have hcall : AudioOutput.perform rnd (.tick inp) a = .ok (p.toList, a') := by
        simp only [AudioOutput.perform, htick, ok_bind, pure_eq_ok]
      exact h.perform hrnd hcall (tick_flags h.flags htick)
  | buffered =>
      rcases bind_eq_ok.mp hop with ⟨_, _, hend⟩
      cases hend
      exact h
  | isActive =>
      rcases bind_eq_ok.mp hop with ⟨_, _, hend⟩
      cases hend
      exact h

end Orderly

theorem playTone_frame {hw : Nat -> ToneRound} {freqHz durationMs : UInt32}
    {handed : List (List UInt8)} (h : Owned a)
    (htone : playTone rnd sinf hw freqHz durationMs a = .ok (handed, a')) : a' = a := by
  rcases playTone_ok rnd sinf hw freqHz durationMs a with ⟨_, heq⟩
  rw [htone, Except.ok.injEq, Prod.mk.injEq] at heq
  rw [heq.2]
  split
  · rfl
  · rename_i hhome
    rcases h with ⟨_, htx, _⟩ | ⟨hxfer, _⟩
    · exact absurd (Or.inl htx) hhome
    · exact reclaim_of_none hxfer

theorem UseStep.orderly (hrnd : F32.Rounding rnd) {u : Usage} (h : Orderly a)
    (hstep : UseStep rnd sinf u a a') : Orderly a' := by
  cases u with
  | operation op => exact h.operate hrnd hstep
  | playTone hw freqHz durationMs =>
      rcases hstep with ⟨handed, htone⟩
      rw [playTone_frame h.flags.owned htone]
      exact h

end Ring

/-! ## Reachable outputs -/

section Reach

variable {rnd sinf : Rat -> Rat} {a a' : AudioOutput}

theorem Fresh.flags (h : Fresh a) : Flags a := by
  rcases h with ⟨reserve, rfl⟩
  exact Flags.home rfl (Option.some_ne_none _) (Option.some_ne_none _)
    fun hcontra => by cases hcontra

theorem Fresh.orderly (h : Fresh a) (hring : a.ring ≠ []) : Orderly a := by
  have hsound := h.kept.sound hring
  refine ⟨hsound, h.flags, fun _ => ?_⟩
  rcases h with ⟨reserve, rfl⟩
  exact Ring.contents_empty hsound.head_lt

theorem Ringless.operate_handles (h : Ringless a) {op : Operation}
    (hop : operate rnd op a = .ok a') :
    Ringless a' ∧ a'.tx = a.tx ∧ a'.stream = a.stream := by
  by_cases hreads : op = .buffered ∨ (op = .isActive ∧ a.streaming = false)
  · rw [h.operate_error rnd hreads] at hop
    cases hop
  · rcases h.operate_ok rnd hreads with ⟨b, hb, hsilent, _⟩
    rw [hb] at hop
    cases hop
    refine ⟨hsilent, ?_⟩
    have hback := reclaim_of_none h.xfer
    cases op with
    | begin =>
        cases hb
        exact ⟨rfl, rfl⟩
    | beginStream inputRate =>
        cases hb
        simp [beginStream, hback]
    | feed mono16 =>
        simp only [operate, h.feed_eq rnd, ok_bind, pure_eq_ok] at hb
        cases hb
        exact ⟨rfl, rfl⟩
    | finishStream =>
        cases hb
        exact ⟨rfl, rfl⟩
    | stopPlayback =>
        cases hb
        simp [stopPlayback, hback]
    | setVolume v =>
        cases hb
        exact ⟨rfl, rfl⟩
    | tick inp =>
        simp only [operate, h.tick_eq rnd, ok_bind, pure_eq_ok] at hb
        cases hb
        exact ⟨rfl, rfl⟩
    | buffered => exact absurd (Or.inl rfl) hreads
    | isActive =>
        rcases bind_eq_ok.mp hb with ⟨_, _, hend⟩
        cases hend
        exact ⟨rfl, rfl⟩

theorem reachable_orderly (hrnd : F32.Rounding rnd)
    (h : Reachable (fun a => Fresh a ∧ a.ring ≠ []) (UseStep rnd sinf) a) : Orderly a :=
  h.invariant (fun _ hfresh => hfresh.1.orderly hfresh.2)
    (fun _ _ _ horderly hstep => UseStep.orderly hrnd horderly hstep)

theorem reachable_owned (hrnd : F32.Rounding rnd)
    (h : Reachable Fresh (UseStep rnd sinf) a) : Owned a := by
  have hinv : Orderly a ∨ (Ringless a ∧ Owned a) := by
    refine h.invariant (P := fun a => Orderly a ∨ (Ringless a ∧ Owned a)) ?_ ?_
    · intro b hfresh
      by_cases hring : b.ring = []
      · refine Or.inr ⟨?_, hfresh.flags.owned⟩
        rcases hfresh with ⟨reserve, rfl⟩
        exact ⟨hring, rfl, rfl, rfl⟩
      · exact Or.inl (hfresh.orderly hring)
    · intro u b c hb hstep
      rcases hb with horderly | ⟨hsilent, howned⟩
      · exact Or.inl (UseStep.orderly hrnd horderly hstep)
      · cases u with
        | operation op =>
            rcases hsilent.operate_handles hstep with ⟨hc, htx, hstream⟩
            refine Or.inr ⟨hc, ?_⟩
            unfold Owned at howned ⊢
            rw [htx, hstream, hc.xfer]
            rw [hsilent.xfer] at howned
            exact howned
        | playTone hw freqHz durationMs =>
            rcases hstep with ⟨handed, htone⟩
            rw [playTone_frame howned htone]
            exact Or.inr ⟨hsilent, howned⟩
  rcases hinv with horderly | ⟨_, howned⟩
  · exact horderly.flags.owned
  · exact howned

end Reach

theorem tick_launches (rnd : Rat -> Rat) {a : AudioOutput} (h : InRange a)
    (hhandles : Handles a) (hxfer : a.xfer = none) (hstream : a.streaming = true)
    (hready : Ready a) {inp : TickInput} (hstart : inp.startOk = true) :
    exists p b, tick rnd inp a = .ok (true, some p, b) ∧ b.xfer ≠ none := by
  rcases tick_ok rnd inp h with ⟨⟨started, p, b⟩, htick⟩
  have hnone (hsome : a.xfer ≠ none) : False := hsome hxfer
  have hstreams (hidle : a.streaming = false) : False := by
    rw [hstream] at hidle
    cases hidle
  cases tick_cases htick with
  | silent hring _ => exact absurd hring h.ring_ne_nil
  | finished hsome _ _ => exact (hnone hsome).elim
  | refilled hsome _ _ _ _ _ _ _ => exact (hnone hsome).elim
  | running hsome _ _ => exact (hnone hsome).elim
  | stopped _ hidle => exact (hstreams hidle).elim
  | waiting _ _ hnot => exact absurd hready hnot
  | noHandles _ _ _ hmissing =>
      have hback := reclaim_handles hhandles
      exact (hmissing.elim hback.1 hback.2).elim
  | launched _ _ _ _ _ _ _ p _ _ _ => exact ⟨p, _, htick, Option.some_ne_none _⟩
  | startFailed _ _ _ _ _ _ _ _ _ _ hfailed =>
      rw [hstart] at hfailed
      cases hfailed

theorem reachable_in_flight (sinf : Rat -> Rat) :
    exists a, Reachable (fun a => Fresh a ∧ a.ring ≠ []) (UseStep F32.round sinf) a ∧
      a.xfer ≠ none := by
  have hfresh := fresh_smallest
  have hpos : 0 < 512 * 1024 := by decide
  generalize 512 * 1024 = cap at hfresh hpos
  have hring := withRing_ne_nil hpos
  have hbegin : Reachable (fun a => Fresh a ∧ a.ring ≠ []) (UseStep F32.round sinf)
      (beginStream 16000 (withRing cap)) :=
    (Reachable.refl ⟨hfresh, hring⟩).step_trans (l := .operation (.beginStream 16000)) rfl
  have hdone : Reachable (fun a => Fresh a ∧ a.ring ≠ []) (UseStep F32.round sinf)
      (finishStream (beginStream 16000 (withRing cap))) :=
    hbegin.step_trans (l := .operation .finishStream) rfl
  have horderly := reachable_orderly F32.rounding_round hdone
  let inp : TickInput := ⟨false, 0, 0, sampleBytes, true⟩
  have hstart : inp.startOk = true := rfl
  rcases tick_launches F32.round horderly.toInRange horderly.flags.handles rfl rfl
      (Or.inr (Or.inl rfl)) hstart with ⟨p, b, htick, hsome⟩
  refine ⟨b, hdone.step_trans (l := .operation (.tick inp)) ?_, hsome⟩
  simp only [UseStep, operate, htick, ok_bind, pure_eq_ok]

/-- Whatever is done with an output that has a ring, and whichever starts fail, its
handles and flags stay consistent. -/
theorem handles_and_flags_consistent {sinf : Rat -> Rat} {a : AudioOutput}
    (h : Reachable (fun a => Fresh a ∧ a.ring ≠ []) (UseStep F32.round sinf) a) :
    Consistent a :=
  (reachable_orderly F32.rounding_round h).consistent

/-- An output with a transfer in flight. -/
theorem handles_and_flags_consistent_in_flight :
    exists a, a.xfer ≠ none ∧ Consistent a := by
  rcases reachable_in_flight id with ⟨a, hreach, hsome⟩
  exact ⟨a, hsome, handles_and_flags_consistent hreach⟩

end AudioOutput
end TWA
