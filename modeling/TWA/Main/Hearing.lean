import TWA.AudioOutput.Activity
import TWA.Main.MicFlag

/-!
# Listening and hearing

While the main loop listens with the channel up, with nothing to play and with no
reply to wait for, the microphone should be on.  Four kinds of steps can leave the
device deaf: a session that comes up while the loop listens with the microphone
off, a message that closes an outstanding round before anything is played, an
interrupt request taken while the loop listens with the microphone off, and
playback that ends before the loop has left listening.
-/

namespace TWA

open Foundation
open Foundation.Exec
open VoiceClient

namespace Main

/-- An `asr.result` has been handled since the microphone was last started, and its
round is not closed. -/
def Outstanding (s : Shared) : Prop :=
  s.asrPending = true ∧ s.tracker.roundFinalized = false

def Inactive (s : Shared) : Prop :=
  s.audio.isActive = .ok false

def Hears (state : AppState) (s : Shared) : Prop :=
  state = .listening -> s.wsUp = true -> Inactive s -> ¬ Outstanding s ->
    s.micActive = true

def MicOff (s : System) : Prop :=
  s.app.state = .listening ∧ s.shared.micActive = false

/-- The events that close the round without starting the microphone. -/
def ClosesRound (ev : ServerEvent) : Prop :=
  ev = .interruptAck ∨ exists text, ev = .assistantCompleted text

/-- The steps that do not make a listening device deaf. -/
def KeepsHearing : Label -> System -> Prop
  | .voice (.sent true), s =>
      s.voicePc = .sendingStart -> Inactive s.shared -> ¬ MicOff s
  | .voice (.text payload), s =>
      forall ev, parseServerMessage payload = .ok ev -> ClosesRound ev ->
        Outstanding s.shared -> Inactive s.shared -> s.app.state ≠ .listening
  | .voice (.clock _), s =>
      s.voicePc = .top -> s.shared.intReq = true -> s.shared.audio.ring ≠ [] ->
        ¬ MicOff s
  | .main inp, s =>
      s.mainPc = .top -> s.shared.audio.Finishes inp.tick -> s.shared.wsUp = true ->
        ¬ Outstanding s.shared -> ¬ MicOff s
  | _, _ => True

/-!
## What is tracked

The program point of the voice task says whether the channel is up, and the
tracker's copy of the microphone flag is on whenever the microphone is.
-/

def VoicePc.offline (pc : VoicePc) : Prop :=
  pc = .connecting ∨ pc = .sendingStart ∨ pc = .down

structure Tracked (pc : VoicePc) (s : Shared) : Prop where
  mic : s.micActive = true -> s.tracker.micActive = true
  paused : s.asrPending = true -> s.tracker.micActive = false
  offline : pc.offline -> s.wsUp = false
  online : ¬ pc.offline -> s.wsUp = true
  starting : pc = .sendingStart -> s.asrPending = false

namespace Tracked

variable {textWidth : Text -> Int} {rnd : Rat -> Rat} {pc pc' : VoicePc}
  {s s' : Shared}

theorem pending_off (h : Tracked pc s) (hasr : s.asrPending = true) :
    s.micActive = false := by
  cases hmic : s.micActive with
  | false => rfl
  | true =>
      have hoff := h.paused hasr
      rw [h.mic hmic] at hoff
      cases hoff

theorem moves {m m' : AppLoop} (hs : Tracked pc s) (h : Moves m m' s s') :
    Tracked pc s' := by
  have hup := h.keeps.wsUp
  cases h.turn with
  | quiet _ hmic htracker hasr =>
      rcases hs with ⟨hs1, hs2, hs3, hs4, hs5⟩
      rw [← hmic, ← htracker] at hs1
      rw [← hasr, ← htracker] at hs2
      rw [← hup] at hs3 hs4
      rw [← hasr] at hs5
      exact ⟨hs1, hs2, hs3, hs4, hs5⟩
  | listen _ hmic htracker hasr =>
      refine ⟨fun _ => by rw [htracker]; rfl, fun hcontra => ?_, ?_, ?_, fun _ => hasr⟩
      · rw [hasr] at hcontra
        cases hcontra
      · rw [hup]
        exact hs.offline
      · rw [hup]
        exact hs.online
  | pause _ hmic htracker hasr =>
      refine ⟨fun hcontra => ?_, fun _ => by rw [htracker]; rfl, ?_, ?_, fun hpc => ?_⟩
      · rw [hmic] at hcontra
        cases hcontra
      · rw [hup]
        exact hs.offline
      · rw [hup]
        exact hs.online
      · cases hpending : s'.asrPending with
        | false => rfl
        | true =>
            have hbefore := hs.starting hpc
            rw [hasr hpending] at hbefore
            cases hbefore

theorem same (hs : Tracked pc s) (hmic : s'.micActive = s.micActive)
    (htracker : s'.tracker.micActive = s.tracker.micActive)
    (hasr : s'.asrPending = s.asrPending) (hup : s'.wsUp = s.wsUp)
    (hpc : pc'.offline <-> pc.offline)
    (hstart : pc' = .sendingStart -> pc = .sendingStart) : Tracked pc' s' := by
  refine ⟨?_, ?_, ?_, ?_, ?_⟩
  · rw [hmic, htracker]
    exact hs.mic
  · rw [hasr, htracker]
    exact hs.paused
  · rw [hpc, hup]
    exact hs.offline
  · rw [hpc, hup]
    exact hs.online
  · intro h
    rw [hasr]
    exact hs.starting (hstart h)

theorem flags {ev : ServerEvent} (hs : Tracked pc s) (h : FlagCase ev s s')
    (hup : s'.wsUp = s.wsUp) (hpc : ¬ pc.offline) (hpc' : ¬ pc'.offline) :
    Tracked pc' s' := by
  have honline : ¬ pc'.offline -> s'.wsUp = true := by
    intro _
    rw [hup]
    exact hs.online hpc
  have hoffline : pc'.offline -> s'.wsUp = false := fun h => absurd h hpc'
  have hstart : pc' = .sendingStart -> s'.asrPending = false :=
    fun h => absurd (Or.inr (Or.inl h)) hpc'
  cases h with
  | same _ hmic htracker hasr =>
      refine ⟨?_, ?_, hoffline, honline, hstart⟩
      · rw [hmic, htracker]
        exact hs.mic
      · rw [hasr, htracker]
        exact hs.paused
  | pause text _ hmic htracker _ =>
      refine ⟨fun hcontra => ?_, fun _ => htracker, hoffline, honline, hstart⟩
      rw [hmic, Bool.and_eq_true] at hcontra
      rw [hs.mic hcontra.1] at hcontra
      cases hcontra.2
  | resume _ _ _ htracker hasr =>
      refine ⟨fun _ => htracker, fun hcontra => ?_, hoffline, honline, hstart⟩
      rw [hasr] at hcontra
      cases hcontra

end Tracked

section Events

variable {textWidth : Text -> Int} {rnd : Rat -> Rat} {now : UInt32}
  {latency : Option UInt32} {pc pc' : VoicePc} {s s' : Shared}

theorem Tracked.voice {inp : VoiceInput} (hs : Tracked pc s)
    (h : VoiceCase textWidth rnd s pc inp pc' s') : Tracked pc' s' := by
  cases h with
  | start hpc =>
      have hoffline : pc.offline := by
        rcases hpc with rfl | rfl
        · exact Or.inl rfl
        · exact Or.inr (Or.inr rfl)
      refine ⟨hs.mic, fun hcontra => absurd hcontra Bool.false_ne_true,
        fun _ => hs.offline hoffline, fun hcontra => ?_, fun _ => rfl⟩
      exact absurd (Or.inr (Or.inl rfl)) hcontra
  | up =>
      refine ⟨hs.mic, hs.paused, fun hcontra => ?_, fun _ => rfl, fun hcontra => ?_⟩
      · simp [VoicePc.offline] at hcontra
      · cases hcontra
  | refused =>
      refine ⟨hs.mic, hs.paused, fun _ => rfl, fun hcontra => ?_, fun hcontra => ?_⟩
      · simp [VoicePc.offline] at hcontra
      · cases hcontra
  | interrupt _ =>
      rw [takeInterrupt_eq]
      exact hs.same rfl rfl rfl rfl (by simp [VoicePc.offline]) (by simp)
  | idle hup hup' _ =>
      exact hs.same rfl rfl rfl rfl (by simp [VoicePc.offline, hup, hup'])
        (fun hcontra => absurd hcontra hup'.2.1)
  | take _ _ => exact hs.same rfl rfl rfl rfl (by simp [VoicePc.offline]) (by simp)
  | event _ hhandle hpc =>
      apply hs.flags (handleServerEvent_flags hhandle) (by rw [handleServerEvent_frame hhandle])
      · simp [VoicePc.offline]
      · rcases hpc with rfl | ⟨ms, rfl⟩ <;> simp [VoicePc.offline]
  | lost _ _ =>
      refine ⟨fun hcontra => absurd hcontra Bool.false_ne_true, hs.paused,
        fun _ => rfl, fun hcontra => ?_, fun hcontra => absurd hcontra (by simp)⟩
      simp [VoicePc.offline] at hcontra

end Events

/-!
## Hearing from step to step
-/

namespace Hears

variable {textWidth : Text -> Int} {rnd : Rat -> Rat} {now : UInt32}
  {latency : Option UInt32} {state state' : AppState} {s s' : Shared}

theorem of_on (h : s.micActive = true) : Hears state s :=
  fun _ _ _ _ => h

theorem of_state (h : state ≠ .listening) : Hears state s :=
  fun hstate => absurd hstate h

theorem of_down (h : s.wsUp = false) : Hears state s := by
  intro _ hup
  rw [h] at hup
  cases hup

theorem of_same (hs : Hears state s) (hup : s'.wsUp = s.wsUp)
    (hmic : s'.micActive = s.micActive) (hasr : s'.asrPending = s.asrPending)
    (hfinal : s'.tracker.roundFinalized = s.tracker.roundFinalized)
    (hactive : s'.audio.isActive = s.audio.isActive) : Hears state s' := by
  intro hstate hws hidle hreply
  rw [hmic]
  refine hs hstate (hup ▸ hws) (hactive.symm.trans hidle) ?_
  intro hwait
  rcases hwait with ⟨hpending, hopen⟩
  exact hreply ⟨hasr.trans hpending, hfinal.trans hopen⟩

theorem moves {m m' : AppLoop} (hs : Hears m.state s) (h : Moves m m' s s') :
    Hears m'.state s' := by
  cases h.turn with
  | quiet hstate hmic htracker hasr =>
      rw [hstate]
      exact hs.of_same h.keeps.wsUp hmic hasr (by rw [htracker])
        h.keeps.stream.isActive
  | listen _ hmic _ _ => exact of_on hmic
  | pause hstate _ _ _ => exact of_state hstate

/-- The pump makes a listening device deaf if it ends playback with the microphone
off and nothing else to wait for. -/
theorem pump {inp : MainInput} {m m' : AppLoop} (hs : Hears m.state s)
    (h : Pump rnd inp m m' s s') :
    Hears m'.state s' <->
      (s.audio.Finishes inp.tick -> s.wsUp = true -> ¬ Outstanding s ->
        ¬ (m.state = .listening ∧ s.micActive = false)) := by
  rcases h.tick with ⟨started, pushed, htick⟩
  have hreply : Outstanding s' <-> Outstanding s := by
    unfold Outstanding
    rw [h.asrPending, h.tracker]
  rw [h.state]
  rcases AudioOutput.tick_activity htick with ⟨hkeeps, hrun⟩ | ⟨hfin, _, _, hidle⟩
  · constructor
    · intro _ hfin
      exact absurd hfin hrun
    · intro _
      exact hs.of_same h.wsUp h.micActive h.asrPending (by rw [h.tracker])
        hkeeps.isActive_eq
  · constructor
    · intro hears _ hup hnone hmic
      rcases hmic with ⟨hstate, hoff⟩
      have hon := hears hstate (h.wsUp.trans hup) hidle (mt hreply.mp hnone)
      rw [h.micActive, hoff] at hon
      cases hon
    · intro hguard hstate hup _ hnone
      rw [h.micActive]
      by_contra hoff
      exact hguard hfin (h.wsUp ▸ hup) (mt hreply.mpr hnone)
        ⟨hstate, Bool.eq_false_iff.mpr hoff⟩

/-- Closing a round makes the device deaf if it listens for the outstanding reply
with nothing playing. -/
theorem close (hs : Hears state s) (hup : s.wsUp = true)
    (hpaused : s.asrPending = true -> s.micActive = false)
    (hup' : s'.wsUp = s.wsUp) (hmic : s'.micActive = s.micActive)
    (hfinal : s'.tracker.roundFinalized = true) (hactive : Inactive s' <-> Inactive s) :
    Hears state s' <->
      (Outstanding s -> Inactive s -> state ≠ .listening) := by
  constructor
  · intro hears hwait hidle hstate
    have hon : s'.micActive = true := by
      apply hears hstate (hup'.trans hup) (hactive.mpr hidle)
      intro hwait
      rcases hwait with ⟨_, hopen⟩
      rw [hfinal] at hopen
      cases hopen
    rw [hmic, hpaused hwait.1] at hon
    cases hon
  · intro hguard hstate _ hidle _
    rw [hmic]
    apply hs hstate hup (hactive.mp hidle)
    intro hwait
    exact hguard hwait (hactive.mp hidle) hstate

theorem takeInterrupt (hup : s.wsUp = true) :
    Hears state (takeInterrupt textWidth s) <->
      (s.audio.ring ≠ [] -> ¬ (state = .listening ∧ s.micActive = false)) := by
  rw [takeInterrupt_eq, ← AudioOutput.stopPlayback_isActive]
  constructor
  · intro hears hidle hmic
    rcases hmic with ⟨hstate, hoff⟩
    have hon : s.micActive = true := by
      apply hears hstate hup hidle
      intro hwait
      rcases hwait with ⟨_, hopen⟩
      rw [RoundTracker.finalizePartial_roundFinalized] at hopen
      cases hopen
    rw [hoff] at hon
    cases hon
  · intro hguard hstate _ hidle _
    show s.micActive = true
    by_contra hoff
    exact hguard hidle ⟨hstate, Bool.eq_false_iff.mpr hoff⟩

theorem resumeMicOnError (hs : s.tracker.micActive = true -> Hears state s) :
    Hears state (resumeMicOnError s) := by
  rw [resumeMicOnError_eq]
  cases hmic : s.tracker.micActive with
  | true => exact (hs hmic).of_same rfl (by simp) (by simp) rfl rfl
  | false => exact of_on (by simp)

theorem assistantError {pc : VoicePc} (hs : Hears state s) (htracked : Tracked pc s) :
    Hears state (Main.resumeMicOnError (finalizePartial textWidth s)) := by
  apply resumeMicOnError
  rw [finalizePartial_eq]
  intro hmic hstate hup hidle _
  apply hs hstate hup hidle
  intro hwait
  rcases hwait with ⟨hpending, _⟩
  have hoff : s.tracker.micActive = false := htracked.paused hpending
  have hon : s.tracker.micActive = true := hmic
  rw [hoff] at hon
  cases hon

theorem audioStart (hs : Hears state s) (rate : Option UInt32) :
    Hears state (audioStart rate s) := by
  rw [audioStart_eq]
  cases hfinal : s.tracker.roundFinalized with
  | true =>
      rw [if_pos rfl]
      exact hs.of_same rfl rfl rfl (by simp) rfl
  | false =>
      intro _ _ hidle _
      cases hidle

theorem audioDone (hs : Hears state s) : Hears state (audioDone s) := by
  rw [audioDone_eq]
  refine hs.of_same rfl rfl rfl (by simp) ?_
  cases s.tracker.voiceAudioOn <;> rfl

theorem asrResult (text : Text) : Hears state (asrResult textWidth text s) := by
  rw [asrResult_eq]
  intro _ _ _ hnone
  exact absurd ⟨rfl, rfl⟩ hnone

theorem audioChunk {b64 : Text} (hs : Hears state s)
    (h : audioChunk rnd now b64 s = .ok (latency, s')) : Hears state s' := by
  have hfinal := RoundTracker.onAudioChunk_roundFinalized now s.tracker
  rcases audioChunk_cases h with ⟨rfl, _⟩ | ⟨n, audio, _, hfeed, rfl⟩
  · exact hs.of_same rfl rfl rfl hfinal rfl
  · exact hs.of_same rfl rfl rfl hfinal
      (AudioOutput.feed_keepsStream hfeed).isActive_eq

/-- Among the server events only those that close the round can make the device
deaf. -/
theorem handleServerEvent {ev : ServerEvent} {pc : VoicePc} (hs : Hears state s)
    (htracked : Tracked pc s) (hup : s.wsUp = true)
    (h : handleServerEvent textWidth rnd now ev s = .ok (latency, s')) :
    Hears state s' <->
      (ClosesRound ev -> Outstanding s -> Inactive s -> state ≠ .listening) := by
  have hother (hopen : ¬ ClosesRound ev) (ht : Hears state s') :
      Hears state s' <->
        (ClosesRound ev -> Outstanding s -> Inactive s -> state ≠ .listening) :=
    ⟨fun _ hcloses => absurd hcloses hopen, fun _ => ht⟩
  cases ev with
  | assistantCompleted text =>
      cases h
      have hcloses : ClosesRound (.assistantCompleted text) := Or.inr ⟨text, rfl⟩
      rw [forall_prop_of_true hcloses]
      exact hs.close hup (fun hasr => htracked.pending_off hasr) rfl rfl
        (RoundTracker.onCompleted_roundFinalized _) Iff.rfl
  | interruptAck =>
      cases h
      have hcloses : ClosesRound .interruptAck := Or.inl rfl
      rw [forall_prop_of_true hcloses, finalizePartial_eq]
      exact hs.close hup (fun hasr => htracked.pending_off hasr) rfl rfl (by simp)
        Iff.rfl
  | assistantError message =>
      cases h
      exact hother (by simp [ClosesRound]) (hs.assistantError htracked)
  | error message =>
      cases h
      exact hother (by simp [ClosesRound]) (resumeMicOnError fun _ => hs)
  | asrResult text =>
      cases h
      exact hother (by simp [ClosesRound]) (asrResult text)
  | audioStart rate =>
      cases h
      exact hother (by simp [ClosesRound]) (hs.audioStart rate)
  | audioChunk b64 => exact hother (by simp [ClosesRound]) (hs.audioChunk h)
  | audioDone =>
      cases h
      exact hother (by simp [ClosesRound]) hs.audioDone
  | assistantDelta text =>
      cases h
      apply hother (by simp [ClosesRound])
      rw [assistantDelta_eq]
      exact hs.of_same rfl rfl rfl (by simp) rfl
  | vadSpeaking speaking =>
      cases h
      cases speaking <;> exact hother (by simp [ClosesRound]) hs
  | _ =>
      cases h
      exact hother (by simp [ClosesRound]) hs

end Hears

/-!
## Runs
-/

section Runs

variable {textWidth : Text -> Int} {rnd : Rat -> Rat}

theorem Step.tracked {l : Label} {s t : System} (hs : Tracked s.voicePc s.shared)
    (h : Step textWidth rnd l s t) : Tracked t.voicePc t.shared := by
  cases h with
  | main _ hmain =>
      rcases mainStep_cases hmain with ⟨_, hpump⟩ | ⟨_, hmoves⟩
      · exact hs.same hpump.micActive (by rw [hpump.tracker]) hpump.asrPending
          hpump.wsUp Iff.rfl id
      · exact hs.moves hmoves
  | voice _ hvoice => exact hs.voice (voiceStep_cases hvoice)

theorem Step.hears {l : Label} {s t : System} (htracked : Tracked s.voicePc s.shared)
    (hs : Hears s.app.state s.shared) (h : Step textWidth rnd l s t) :
    Hears t.app.state t.shared <-> KeepsHearing l s := by
  cases h with
  | main _ hmain =>
      rcases mainStep_cases hmain with ⟨hpc, hpump⟩ | ⟨hpc, hmoves⟩
      · refine (hs.pump hpump).trans ?_
        exact ⟨fun hguard _ => hguard, fun hguard => hguard hpc⟩
      · exact ⟨fun _ htop => absurd htop hpc, fun _ => hs.moves hmoves⟩
  | voice _ hvoice =>
      rcases s with ⟨mainPc, app, voicePc, shared⟩
      cases voiceStep_cases hvoice with
      | start hpc =>
          have hdown : shared.wsUp = false := by
            apply htracked.offline
            rcases hpc with rfl | rfl
            · exact Or.inl rfl
            · exact Or.inr (Or.inr rfl)
          exact ⟨fun _ => trivial, fun _ => Hears.of_down hdown⟩
      | up =>
          constructor
          · intro hears _ hidle hmic
            rcases hmic with ⟨hstate, hoff⟩
            have hnone : ¬ Outstanding shared := by
              intro hwait
              rcases hwait with ⟨hpending, _⟩
              have hfresh : shared.asrPending = false := htracked.starting rfl
              rw [hfresh] at hpending
              cases hpending
            have hon : shared.micActive = true := hears hstate rfl hidle hnone
            rw [hon] at hoff
            cases hoff
          · intro hguard hstate _ hidle _
            show shared.micActive = true
            by_contra hoff
            exact hguard rfl hidle ⟨hstate, Bool.eq_false_iff.mpr hoff⟩
      | refused => exact ⟨fun _ => trivial, fun _ => Hears.of_down rfl⟩
      | interrupt hreq =>
          have hup : shared.wsUp = true := htracked.online (by simp [VoicePc.offline])
          refine (Hears.takeInterrupt hup).trans ?_
          exact ⟨fun hguard _ _ => hguard, fun hguard => hguard rfl hreq⟩
      | idle hup _ hinp =>
          refine ⟨fun _ => ?_, fun _ => hs⟩
          rcases hinp with rfl | rfl | rfl | ⟨now, rfl, hreq⟩
          · trivial
          · trivial
          · exact fun hpc => absurd hpc hup.2.1
          · intro _ hcontra
            rw [hreq] at hcontra
            cases hcontra
      | take _ _ =>
          exact ⟨fun _ => trivial, fun _ => hs.of_same rfl rfl rfl rfl rfl⟩
      | event hparse hhandle _ =>
          have hup : shared.wsUp = true := htracked.online (by simp [VoicePc.offline])
          refine (hs.handleServerEvent htracked hup hhandle).trans ?_
          constructor
          · intro hguard ev hev
            rw [hparse] at hev
            cases hev
            exact hguard
          · intro hguard
            exact hguard _ hparse
      | lost hup hinp =>
          refine ⟨fun _ => ?_, fun _ => Hears.of_down rfl⟩
          rcases hinp with rfl | rfl
          · trivial
          · trivial

theorem boot_tracked {s : System} (h : Init s) : Tracked s.voicePc s.shared := by
  rcases h with ⟨reserve, rfl⟩
  refine ⟨fun hcontra => ?_, fun _ => rfl, fun _ => rfl, fun hcontra => ?_, fun _ => rfl⟩
  · cases hcontra
  · exact absurd (Or.inl rfl) hcontra

theorem boot_hears {s : System} (h : Init s) : Hears s.app.state s.shared := by
  rcases h with ⟨reserve, rfl⟩
  exact Hears.of_down rfl

/-- In a run whose steps all keep a listening device from turning deaf, a listening
device with nothing to play and no reply to wait for has its microphone on in every
state; and only a step of the other kind can turn it off. -/
theorem listening_hears {s0 s : System} {ls : List Label} (h0 : Init s0)
    (hrun : Run (Guarded KeepsHearing (Step textWidth rnd)) s0 ls s) :
    Hears s.app.state s.shared ∧
      forall l t, Step textWidth rnd l s t ->
        (Hears t.app.state t.shared <-> KeepsHearing l s) := by
  have hboth : Tracked s.voicePc s.shared ∧ Hears s.app.state s.shared := by
    refine hrun.invariant (P := fun s => Tracked s.voicePc s.shared ∧
      Hears s.app.state s.shared) ?_ ⟨boot_tracked h0, boot_hears h0⟩
    intro l s t hboth hguarded
    rcases hboth with ⟨htracked, hs⟩
    rcases hguarded with ⟨hguard, hstep⟩
    exact ⟨hstep.tracked htracked, (hstep.hears htracked hs).mpr hguard⟩
  exact ⟨hboth.2, fun l t hstep => hstep.hears hboth.1 hboth.2⟩

end Runs

theorem withRing_isActive {cap : Nat} (hcap : cap ≠ 0) :
    (AudioOutput.withRing cap).isActive = .ok false := by
  unfold AudioOutput.isActive
  rw [withRing_buffered hcap]
  rfl

theorem new_isActive : (AudioOutput.new fun _ => true).isActive = .ok false :=
  withRing_isActive (by decide)

/-- Through the first session the device hears, and in the end it listens. -/
theorem listening_hears_first_session :
    exists s, s.app.state = .listening ∧ s.shared.wsUp = true ∧ Inactive s.shared ∧
      ¬ Outstanding s.shared ∧
      Run (Guarded KeepsHearing (Step monospace F32.round))
        (System.boot (.new fun _ => true)) firstSession s ∧
      Hears s.app.state s.shared := by
  have hrun : Run (Guarded KeepsHearing (Step monospace F32.round))
      (System.boot (.new fun _ => true)) firstSession
      (waitingAt 0 (listeningLoop 6000) (listeningShared (.new fun _ => true))) := by
    refine (firstSession_listens monospace F32.round (new_silent _)).mono ?_
    intro l s t hguarded
    rcases hguarded with ⟨hearly, hstep⟩
    refine ⟨?_, hstep⟩
    have hidle {inp : VoiceInput} (hl : l = .voice inp) : ¬ MicOff s := by
      intro hoff
      rcases hoff with ⟨hstate, _⟩
      rcases hearly.idle with hidle | ⟨⟨inp', hmain⟩, _⟩
      · rw [hidle] at hstate
        cases hstate
      · rw [hl] at hmain
        cases hmain
    cases l with
    | main inp =>
        intro _ hfin
        have hxfer : s.shared.audio.xfer = none := by
          rw [hearly.audio]
          exact (new_silent _).xfer
        exact absurd hxfer hfin.1
    | voice inp =>
        cases inp with
        | sent ok =>
            cases ok with
            | true => exact fun _ _ => hidle rfl
            | false => trivial
        | clock now => exact fun _ _ _ => hidle rfl
        | text payload => exact absurd rfl (hearly.calm.2.2 payload)
        | _ => trivial
  refine ⟨waitingAt 0 (listeningLoop 6000) (listeningShared (.new fun _ => true)), rfl,
    rfl, new_isActive, ?_, hrun, (listening_hears ⟨_, rfl⟩ hrun).1⟩
  intro hwait
  rcases hwait with ⟨hpending, _⟩
  cases hpending

/-- After the session is lost while listening, the next one comes up with the
microphone off. -/
theorem reconnect_while_listening_deaf :
    exists s, Reachable Init (Step monospace F32.round) s ∧
      s.app.state = .listening ∧ s.shared.wsUp = true ∧ Inactive s.shared ∧
      s.shared.asrPending = false ∧ s.shared.micActive = false ∧
      ¬ Hears s.app.state s.shared := by
  have hrun := (firstSession_listens monospace F32.round
    (new_silent fun _ => true)).of_guarded
  have hlost := hrun.snoc (l := .voice .lost) (Step.voice rfl rfl)
  have hagain := hlost.snoc (l := .voice .connected) (Step.voice rfl rfl)
  have hup := hagain.snoc (l := .voice (.sent true)) (Step.voice rfl rfl)
  refine ⟨_, ⟨_, _, ⟨_, rfl⟩, hup⟩, rfl, rfl, new_isActive, rfl, rfl, ?_⟩
  intro hears
  have hon := hears rfl rfl new_isActive (by rintro ⟨hpending, _⟩; cases hpending)
  cases hon

end Main
end TWA
