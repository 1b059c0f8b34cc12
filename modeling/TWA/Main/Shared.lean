import TWA.AudioOutput.Model
import TWA.Display.Model
import TWA.VoiceClient.Base64
import TWA.VoiceClient.RoundTracker
import TWA.VoiceClient.Scanner

/-!
# What the tasks share

The main loop and the voice task share four flags, the microphone channel and
three objects behind mutexes.  The microphone flag exists twice, in `micActive` and
in the tracker.  This module has that state and the reaction to each server
event.
-/

namespace TWA

open Foundation
open Foundation.Exec
open VoiceClient

namespace Main

inductive AppState where
  | idle
  | listening
  | playing
  deriving DecidableEq, Repr

structure MicChunk where
  data : List UInt8
  /-- Ghost fields: the microphone start and the session it was recorded in. -/
  micEpoch : Nat
  session : Nat
  deriving DecidableEq, Repr

def micChCapacity : Nat := 6

structure Shared where
  /-- The main channel is connected; written by the voice task. -/
  wsUp : Bool
  /-- The microphone should be sent; written by both tasks. -/
  micActive : Bool
  /-- Time of the last speech event; zero is never. -/
  lastVadMs : UInt32
  /-- An interrupt is requested by the main loop. -/
  intReq : Bool
  micCh : List MicChunk
  tracker : RoundTracker
  audio : AudioOutput
  display : Display
  /-- Ghost field: an `asr.result` was handled in this session since the microphone
  was last started. -/
  asrPending : Bool
  /-- Ghost field: how often the microphone flag has been raised. -/
  micEpoch : Nat
  /-- Ghost field: how many sessions have been started. -/
  session : Nat
  deriving DecidableEq, Repr

def Shared.boot (audio : AudioOutput) : Shared :=
  { wsUp := false
    micActive := false
    lastVadMs := 0
    intReq := false
    micCh := []
    tracker := .new
    audio := audio
    display := .new
    asrPending := false
    micEpoch := 0
    session := 0 }

/-!
## The microphone flags
-/

def storeMicActive (b : Bool) (s : Shared) : Shared :=
  { s with
    micActive := b
    micEpoch := if b && !s.micActive then s.micEpoch + 1 else s.micEpoch }

def trackerMicStart (s : Shared) : Shared :=
  storeMicActive true { s with tracker := s.tracker.micStart }

def trackerMicPause (s : Shared) : Shared :=
  storeMicActive false { s with tracker := s.tracker.micPause }

/-!
## Server events
-/

def vadSpeaking (now : UInt32) (speaking : Bool) (s : Shared) : Shared :=
  if speaking then { s with lastVadMs := now } else s

def audioStart (rate : Option UInt32) (s : Shared) : Shared :=
  let answer := s.tracker.onVoiceAudioStart
  let s := { s with tracker := answer.2 }
  if answer.1 then
    { s with
      audio := s.audio.beginStream (rate.getD Config.defaultStreamInputRate) }
  else
    s

def audioDone (s : Shared) : Shared :=
  let answer := s.tracker.onAudioDone
  let s := { s with tracker := answer.2 }
  if answer.1 then { s with audio := s.audio.finishStream } else s

/-- The microphone is started again after an error, unless the tracker has it on. -/
def resumeMicOnError (s : Shared) : Shared :=
  let answer := s.tracker.resumeMicOnError
  let s := { s with tracker := answer.2 }
  if answer.1 then storeMicActive true { s with asrPending := false } else s

/-- The stream of the last reply is still open: drop what is left of it. -/
def stopUnfinished (action : AsrResultAction) (s : Shared) : Shared :=
  if action.stopPlayback then { s with audio := s.audio.stopPlayback } else s

def pauseMic (action : AsrResultAction) (s : Shared) : Shared :=
  if action.pauseMic then
    { storeMicActive false s with tracker := s.tracker.micPause }
  else
    s

section Events

variable (textWidth : Text -> Int)

def asrResult (text : Text) (s : Shared) : Shared :=
  let answer := s.tracker.onAsrResult
  let s := { s with tracker := answer.2, asrPending := true }
  let s := pauseMic answer.1 (stopUnfinished answer.1 s)
  { s with display := s.display.addUserLine textWidth text }

def assistantDelta (now : UInt32) (text : Text) (s : Shared) : Shared :=
  let answer := s.tracker.onAssistantDelta now
  let s := { s with tracker := answer.2 }
  if answer.1.1 then
    { s with display := s.display.appendReplyDelta textWidth text }
  else
    s

/-- The full text goes to the display whatever the tracker answers; the second
channel for replies without audio is not connected. -/
def assistantCompleted (text : Text) (s : Shared) : Shared :=
  { s with
    tracker := s.tracker.onCompleted.2
    display := s.display.setReplyFullText textWidth text }

def finalizePartial (s : Shared) : Shared :=
  let answer := s.tracker.finalizePartial
  let s := { s with tracker := answer.2 }
  if answer.1 then { s with display := s.display.flushTyping textWidth } else s

variable (rnd : Rat -> Rat)

def feedPcm (pcm : List UInt8) (s : Shared) : Exec Shared :=
  if pcm = [] then
    pure s
  else do
    let (_, audio) <- s.audio.feed rnd pcm
    pure { s with audio := audio }

def audioChunk (now : UInt32) (b64 : Text) (s : Shared) :
    Exec (Option UInt32 × Shared) :=
  let answer := s.tracker.onAudioChunk now
  let s := { s with tracker := answer.2 }
  if answer.1.1 then do
    let s <- feedPcm rnd (decodeBase64 (Utf8.encode b64) []) s
    pure (answer.1.2, s)
  else
    pure (none, s)

def handleServerEvent (now : UInt32) (ev : ServerEvent) (s : Shared) :
    Exec (Option UInt32 × Shared) :=
  match ev with
  | .serverReady | .sessionReady | .sessionClosed => pure (none, s)
  | .vadSpeaking speaking => pure (none, vadSpeaking now speaking s)
  | .asrResult text => pure (none, asrResult textWidth text s)
  | .assistantDelta text => pure (none, assistantDelta textWidth now text s)
  | .audioStart rate => pure (none, audioStart rate s)
  | .audioChunk b64 => audioChunk rnd now b64 s
  | .audioDone => pure (none, audioDone s)
  | .assistantCompleted text => pure (none, assistantCompleted textWidth text s)
  | .assistantError _ =>
      pure (none, resumeMicOnError (finalizePartial textWidth s))
  | .interruptAck => pure (none, finalizePartial textWidth s)
  | .audioFile _ => pure (none, s)
  | .error _ => pure (none, resumeMicOnError s)
  | .unknown => pure (none, s)

end Events

/-!
## Spec lemmas

Each reaction as one update, with its conditions at the fields they are about.
-/

section Specs

variable (textWidth : Text -> Int) (s : Shared)

theorem audioStart_eq (rate : Option UInt32) :
    audioStart rate s =
      { s with
        tracker := s.tracker.onVoiceAudioStart.2
        audio :=
          if s.tracker.roundFinalized then s.audio
          else s.audio.beginStream (rate.getD Config.defaultStreamInputRate) } := by
  unfold audioStart
  simp only [RoundTracker.onVoiceAudioStart_accept]
  cases s.tracker.roundFinalized <;> rfl

theorem audioDone_eq :
    audioDone s =
      { s with
        tracker := s.tracker.onAudioDone.2
        audio :=
          if s.tracker.voiceAudioOn then s.audio.finishStream else s.audio } := by
  unfold audioDone
  simp only [RoundTracker.onAudioDone_closed]
  cases s.tracker.voiceAudioOn <;> rfl

theorem stopUnfinished_eq (action : AsrResultAction) :
    stopUnfinished action s =
      { s with
        audio := if action.stopPlayback then s.audio.stopPlayback else s.audio } := by
  unfold stopUnfinished
  split <;> rfl

theorem pauseMic_eq (action : AsrResultAction) :
    pauseMic action s =
      { s with
        micActive := s.micActive && !action.pauseMic
        tracker := if action.pauseMic then s.tracker.micPause else s.tracker } := by
  unfold pauseMic
  cases action.pauseMic with
  | true =>
      rw [Bool.not_true, Bool.and_false]
      rfl
  | false =>
      rw [Bool.not_false, Bool.and_true]
      rfl

theorem asrResult_eq (text : Text) :
    asrResult textWidth text s =
      { s with
        tracker := s.tracker.onAsrResult.2
        asrPending := true
        micActive := s.micActive && !s.tracker.micActive
        audio :=
          if s.tracker.voiceAudioOn then s.audio.stopPlayback else s.audio
        display := s.display.addUserLine textWidth text } := by
  have hpause : s.tracker.onAsrResult.2.micPause = s.tracker.onAsrResult.2 := rfl
  unfold asrResult
  simp only [stopUnfinished_eq, pauseMic_eq, hpause, ite_self,
    RoundTracker.onAsrResult_stopPlayback, RoundTracker.onAsrResult_pauseMic]
  rfl

theorem assistantDelta_eq (now : UInt32) (text : Text) :
    assistantDelta textWidth now text s =
      { s with
        tracker := (s.tracker.onAssistantDelta now).2
        display :=
          if s.tracker.roundFinalized then s.display
          else s.display.appendReplyDelta textWidth text } := by
  unfold assistantDelta
  simp only [RoundTracker.onAssistantDelta_accept]
  cases s.tracker.roundFinalized <;> rfl

theorem finalizePartial_eq :
    finalizePartial textWidth s =
      { s with
        tracker := s.tracker.finalizePartial.2
        display :=
          if s.tracker.finalizePartial.1 then s.display.flushTyping textWidth
          else s.display } := by
  unfold finalizePartial
  simp only
  cases s.tracker.finalizePartial.1 <;> rfl

/-- The tracker has the microphone on afterwards; the flag is raised if the tracker
had it off. -/
theorem resumeMicOnError_eq :
    resumeMicOnError s =
      { s with
        micActive := s.micActive || !s.tracker.micActive
        tracker := s.tracker.micStart
        asrPending := s.asrPending && s.tracker.micActive
        micEpoch :=
          if s.tracker.micActive || s.micActive then s.micEpoch
          else s.micEpoch + 1 } := by
  rcases s with
    ⟨_, micActive, _, _, _, ⟨_, _, _, _, trackerMic, _, _⟩, _, _, asrPending, _, _⟩
  cases trackerMic <;> cases micActive <;> cases asrPending <;> rfl

variable {textWidth s} {rnd : Rat -> Rat} {now : UInt32} {latency : Option UInt32}
  {s' : Shared}

theorem audioChunk_cases {b64 : Text}
    (h : audioChunk rnd now b64 s = .ok (latency, s')) :
    (s' = { s with tracker := (s.tracker.onAudioChunk now).2 } ∧
      (s.tracker.roundFinalized = true -> latency = none)) ∨
      exists n audio, s.tracker.roundFinalized = false ∧
        s.audio.feed rnd (decodeBase64 (Utf8.encode b64) []) = .ok (n, audio) ∧
        s' = { s with tracker := (s.tracker.onAudioChunk now).2, audio := audio } := by
  unfold audioChunk feedPcm at h
  simp only [RoundTracker.onAudioChunk_accept] at h
  cases hfinal : s.tracker.roundFinalized with
  | true =>
      rw [hfinal, if_neg (by simp)] at h
      cases h
      exact Or.inl ⟨rfl, fun _ => rfl⟩
  | false =>
      rw [hfinal, if_pos (by simp)] at h
      rcases bind_eq_ok.mp h with ⟨s1, hfeed, h⟩
      cases h
      split at hfeed
      · cases hfeed
        exact Or.inl ⟨rfl, fun hcontra => by cases hcontra⟩
      · rcases bind_eq_ok.mp hfeed with ⟨⟨n, audio⟩, hok, hfeed⟩
        cases hfeed
        exact Or.inr ⟨n, audio, rfl, hok, rfl⟩

/-- What no event touches; only speech is stamped, and a rising flag is counted. -/
theorem handleServerEvent_frame {ev : ServerEvent}
    (h : handleServerEvent textWidth rnd now ev s = .ok (latency, s')) :
    s' =
      { s with
        micActive := s'.micActive
        lastVadMs := if ev = .vadSpeaking true then now else s.lastVadMs
        tracker := s'.tracker
        audio := s'.audio
        display := s'.display
        asrPending := s'.asrPending
        micEpoch :=
          if s'.micActive && !s.micActive then s.micEpoch + 1 else s.micEpoch } := by
  cases ev with
  | asrResult text =>
      cases h
      simp +contextual [asrResult_eq]
  | vadSpeaking speaking =>
      cases h
      cases speaking <;> simp [vadSpeaking]
  | audioStart rate =>
      cases h
      simp [audioStart_eq]
  | audioDone =>
      cases h
      simp [audioDone_eq]
  | audioChunk b64 =>
      rcases audioChunk_cases h with ⟨rfl, _⟩ | ⟨n, audio, _, _, rfl⟩
      · simp
      · simp
  | assistantDelta text =>
      cases h
      simp [assistantDelta_eq]
  | assistantCompleted text =>
      cases h
      simp [assistantCompleted]
  | assistantError message =>
      cases h
      cases htracker : s.tracker.micActive <;> cases hmic : s.micActive <;>
        simp [resumeMicOnError_eq, finalizePartial_eq, htracker, hmic]
  | interruptAck =>
      cases h
      simp [finalizePartial_eq]
  | error message =>
      cases h
      cases htracker : s.tracker.micActive <;> cases hmic : s.micActive <;>
        simp [resumeMicOnError_eq, htracker, hmic]
  | _ =>
      cases h
      simp

end Specs

end Main
end TWA
