import TWA.AudioOutput.Activity
import TWA.Main.System

/-!
# Open streams

A stream that is open can only be closed by an `audio.done` or the next
`asr.result` of the live session, and both are passed on only if the tracker has
the voice audio on.  Server events, interrupts and the pump keep the two in step;
the start of a session clears the tracker and leaves the stream.
-/

namespace TWA

open Foundation
open Foundation.Exec
open VoiceClient

namespace Main

def StreamKnown (s : Shared) : Prop :=
  s.audio.IsOpen -> s.tracker.voiceAudioOn = true

/-- An open stream is known to the tracker, and so an `audio.done` marks it done and
an `asr.result` ends it. -/
structure Closable (textWidth : Text -> Int) (s : System) : Prop where
  known : s.shared.audio.IsOpen -> s.shared.tracker.voiceAudioOn = true
  done : s.shared.audio.IsOpen -> (audioDone s.shared).audio.doneFlag = true
  next : s.shared.audio.IsOpen ->
    forall text, (asrResult textWidth text s.shared).audio.streaming = false

def StartsClosed (l : Label) (s : System) : Prop :=
  l = .voice .connected -> ¬ s.shared.audio.IsOpen

section Streams

variable {textWidth : Text -> Int} {rnd : Rat -> Rat} {now : UInt32}
  {latency : Option UInt32}

theorem closable_iff (s : System) :
    Closable textWidth s <-> StreamKnown s.shared := by
  constructor
  · intro h
    exact h.known
  · intro h
    refine ⟨h, ?_, ?_⟩
    · intro hopen
      rw [audioDone_eq, h hopen]
      rfl
    · intro hopen text
      rw [asrResult_eq, h hopen]
      rfl

/-!
## Server events
-/

theorem stopPlayback_closed (a : AudioOutput) : ¬ a.stopPlayback.IsOpen := by
  intro hopen
  rcases hopen with ⟨hstream, _⟩
  cases hstream

theorem finishStream_closed (a : AudioOutput) : ¬ a.finishStream.IsOpen := by
  intro hopen
  rcases hopen with ⟨_, hdone⟩
  cases hdone

namespace StreamKnown

variable {s s' : Shared}

theorem of_closed (h : ¬ s.audio.IsOpen) : StreamKnown s :=
  fun hopen => absurd hopen h

theorem of_keeps (hs : StreamKnown s)
    (hopen : s'.audio.IsOpen -> s.audio.IsOpen)
    (htracker : s'.tracker.voiceAudioOn = s.tracker.voiceAudioOn) :
    StreamKnown s' := by
  intro h
  rw [htracker]
  exact hs (hopen h)

theorem audioStart (hs : StreamKnown s) (rate : Option UInt32) :
    StreamKnown (audioStart rate s) := by
  intro hopen
  rw [audioStart_eq] at hopen ⊢
  cases hfinal : s.tracker.roundFinalized with
  | true =>
      rw [hfinal, if_pos rfl] at hopen
      simp [RoundTracker.onVoiceAudioStart_voiceAudioOn, hs hopen]
  | false =>
      simp [RoundTracker.onVoiceAudioStart_voiceAudioOn, hfinal]

theorem audioDone (hs : StreamKnown s) : StreamKnown (audioDone s) := by
  apply of_closed
  intro hopen
  rw [audioDone_eq] at hopen
  cases hvoice : s.tracker.voiceAudioOn with
  | true =>
      rw [hvoice, if_pos rfl] at hopen
      exact finishStream_closed _ hopen
  | false =>
      rw [hvoice, if_neg Bool.false_ne_true] at hopen
      rw [hs hopen] at hvoice
      cases hvoice

theorem asrResult (hs : StreamKnown s) (text : Text) :
    StreamKnown (asrResult textWidth text s) := by
  apply of_closed
  intro hopen
  rw [asrResult_eq] at hopen
  cases hvoice : s.tracker.voiceAudioOn with
  | true =>
      rw [hvoice, if_pos rfl] at hopen
      exact stopPlayback_closed _ hopen
  | false =>
      rw [hvoice, if_neg Bool.false_ne_true] at hopen
      rw [hs hopen] at hvoice
      cases hvoice

theorem audioChunk {b64 : Text} (hs : StreamKnown s)
    (h : audioChunk rnd now b64 s = .ok (latency, s')) : StreamKnown s' := by
  have hvoice := RoundTracker.onAudioChunk_voiceAudioOn now s.tracker
  rcases audioChunk_cases h with ⟨rfl, _⟩ | ⟨n, audio, _, hfeed, rfl⟩
  · exact hs.of_keeps id hvoice
  · exact hs.of_keeps (AudioOutput.feed_keepsStream hfeed).isOpen_iff.mp hvoice

theorem finalizePartial (hs : StreamKnown s) :
    StreamKnown (finalizePartial textWidth s) := by
  rw [finalizePartial_eq]
  exact hs.of_keeps id rfl

theorem resumeMicOnError (hs : StreamKnown s) : StreamKnown (resumeMicOnError s) := by
  rw [resumeMicOnError_eq]
  exact hs.of_keeps id rfl

theorem handleServerEvent {ev : ServerEvent} (hs : StreamKnown s)
    (h : handleServerEvent textWidth rnd now ev s = .ok (latency, s')) :
    StreamKnown s' := by
  cases ev with
  | audioStart rate =>
      cases h
      exact hs.audioStart rate
  | audioChunk b64 => exact hs.audioChunk h
  | audioDone =>
      cases h
      exact hs.audioDone
  | asrResult text =>
      cases h
      exact hs.asrResult text
  | assistantDelta text =>
      cases h
      rw [assistantDelta_eq]
      exact hs.of_keeps id (by simp)
  | assistantCompleted text =>
      cases h
      exact hs.of_keeps id (by simp [assistantCompleted])
  | assistantError message =>
      cases h
      exact hs.finalizePartial.resumeMicOnError
  | interruptAck =>
      cases h
      exact hs.finalizePartial
  | error message =>
      cases h
      exact hs.resumeMicOnError
  | vadSpeaking speaking =>
      cases h
      cases speaking <;> exact hs
  | _ =>
      cases h
      exact hs

theorem takeInterrupt (s : Shared) : StreamKnown (takeInterrupt textWidth s) := by
  rw [takeInterrupt_eq]
  exact of_closed (stopPlayback_closed _)

end StreamKnown

/-!
## Steps and runs
-/

theorem SameStream.isOpen_iff {a b : AudioOutput} (h : SameStream a b) :
    b.IsOpen <-> a.IsOpen := by
  unfold AudioOutput.IsOpen
  rw [h.streaming, h.doneFlag]

theorem Moves.streamKnown {m m' : AppLoop} {s s' : Shared} (h : Moves m m' s s')
    (hs : StreamKnown s) : StreamKnown s' := by
  rcases h.turn.tracker_eq with ⟨b, htracker⟩
  exact hs.of_keeps h.keeps.stream.isOpen_iff.mp (by rw [htracker])

theorem Pump.streamKnown {inp : MainInput} {m m' : AppLoop} {s s' : Shared}
    (h : Pump rnd inp m m' s s') (hs : StreamKnown s) : StreamKnown s' := by
  rcases h.tick with ⟨started, pushed, htick⟩
  refine hs.of_keeps (fun hopen => ?_) (by rw [h.tracker])
  rcases AudioOutput.tick_activity htick with ⟨hkeeps, _⟩ | ⟨_, hstream, _, _⟩
  · exact hkeeps.isOpen_iff.mp hopen
  · rw [hopen.1] at hstream
    cases hstream

/-- The start of a session clears the tracker, so it must meet no open stream. -/
theorem startSession_streamKnown (s : Shared) :
    StreamKnown (startSession s) <-> ¬ s.audio.IsOpen := by
  constructor
  · intro h hopen
    cases h hopen
  · exact StreamKnown.of_closed (s := startSession s)

theorem Step.closable {l : Label} {s t : System} (hs : Closable textWidth s)
    (h : Step textWidth rnd l s t) : Closable textWidth t <-> StartsClosed l s := by
  rw [closable_iff] at hs ⊢
  have hkept (hl : l ≠ .voice .connected) (ht : StreamKnown t.shared) :
      StreamKnown t.shared <-> StartsClosed l s :=
    ⟨fun _ hstart => absurd hstart hl, fun _ => ht⟩
  cases h with
  | main _ hmain =>
      apply hkept (by simp)
      rcases mainStep_cases hmain with ⟨_, hpump⟩ | ⟨_, hmoves⟩
      · exact hpump.streamKnown hs
      · exact hmoves.streamKnown hs
  | voice _ hvoice =>
      rcases s with ⟨mainPc, app, voicePc, shared⟩
      cases voiceStep_cases hvoice with
      | start _ =>
          refine (startSession_streamKnown shared).trans ?_
          exact ⟨fun hclosed _ => hclosed, fun hguard => hguard rfl⟩
      | up => exact hkept (by simp) hs
      | refused => exact hkept (by simp) hs
      | interrupt _ => exact hkept (by simp) (StreamKnown.takeInterrupt shared)
      | idle _ _ hinp =>
          refine hkept ?_ hs
          rcases hinp with rfl | rfl | rfl | ⟨now, rfl, _⟩ <;> simp
      | take _ _ => exact hkept (by simp) hs
      | event _ hhandle _ => exact hkept (by simp) (hs.handleServerEvent hhandle)
      | lost _ hinp =>
          refine hkept ?_ hs
          rcases hinp with rfl | rfl <;> simp

theorem boot_closable {s : System} (h : Init s) : Closable textWidth s := by
  rcases h with ⟨reserve, rfl⟩
  rw [closable_iff]
  intro hopen
  rcases hopen with ⟨hstream, _⟩
  cases hstream

/-- In a run in which no session starts while a stream is open, an open stream can
be closed in every state; and only such a start can leave one that cannot. -/
theorem open_stream_closable {s0 s : System} {ls : List Label} (h0 : Init s0)
    (hrun : Run (Guarded StartsClosed (Step textWidth rnd)) s0 ls s) :
    Closable textWidth s ∧
      forall l t, Step textWidth rnd l s t ->
        (Closable textWidth t <-> StartsClosed l s) :=
  hrun.guarded_exact (fun _ _ _ hs hstep => hstep.closable hs) (boot_closable h0)

end Streams

/-!
## A stream that is opened
-/

def audioStartFrame : List UInt8 :=
  Json.bytes "\x7b\"type\":\"audio.start\"\x7d"

theorem audioStartFrame_event :
    parseServerMessage audioStartFrame = .ok (.audioStart none) := by
  decide +kernel

theorem beginStream_open (rate : UInt32) (a : AudioOutput) :
    (a.beginStream rate).IsOpen :=
  ⟨rfl, rfl⟩

/-- In the first session a stream is opened, which an `audio.done` marks done. -/
theorem open_stream_closable_first_session :
    exists s, s.shared.audio.IsOpen ∧
      Run (Guarded StartsClosed (Step monospace F32.round))
        (System.boot (.new fun _ => true))
        (firstSession ++ [.voice (.text audioStartFrame)]) s ∧
      Closable monospace s := by
  have hrun : Run (Guarded StartsClosed (Step monospace F32.round))
      (System.boot (.new fun _ => true)) firstSession
      (waitingAt 0 (listeningLoop 6000) (listeningShared (.new fun _ => true))) := by
    refine (firstSession_listens monospace F32.round (new_silent _)).mono ?_
    intro l s t hguarded
    rcases hguarded with ⟨hearly, hstep⟩
    refine ⟨fun _ hopen => ?_, hstep⟩
    rw [hearly.audio] at hopen
    cases hopen.1
  have hopens := hrun.snoc (l := .voice (.text audioStartFrame))
    ⟨fun hstart => absurd hstart (by simp),
      Step.text rfl rfl audioStartFrame_event rfl⟩
  exact ⟨_, beginStream_open _ _, hopens, (open_stream_closable ⟨_, rfl⟩ hopens).1⟩

/-- A session that is lost and started again while a stream is open leaves a stream
that the tracker does not know of. -/
theorem reconnect_forgets_open_stream :
    exists s, Reachable Init (Step monospace F32.round) s ∧
      s.shared.audio.IsOpen ∧ s.shared.tracker.voiceAudioOn = false ∧
      (audioDone s.shared).audio = s.shared.audio ∧
      ¬ Closable monospace s := by
  have hrun := (firstSession_listens monospace F32.round
    (new_silent fun _ => true)).of_guarded
  have hopened := hrun.snoc (l := .voice (.text audioStartFrame))
    (Step.text rfl rfl audioStartFrame_event rfl)
  have hround := hopened.snoc (l := .voice (.clock 0)) (Step.voice rfl rfl)
  have hwaits := hround.snoc (l := .voice .go) (Step.voice rfl rfl)
  have hlost := hwaits.snoc (l := .voice .lost) (Step.voice rfl rfl)
  have hagain := hlost.snoc (l := .voice .connected) (Step.voice rfl rfl)
  refine ⟨_, ⟨_, _, ⟨_, rfl⟩, hagain⟩, beginStream_open _ _, rfl, rfl, ?_⟩
  intro hclosable
  cases hclosable.known (beginStream_open _ _)

end Main
end TWA
