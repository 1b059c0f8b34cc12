import Mathlib.Tactic.Common

/-!
# The round tracker

The guard state of one streamed reply.  An `asr.result` opens a round; the
round is finalized by `assistant.completed`, by an error or by an
interrupt, and whatever arrives for it afterwards is to be dropped.  The
microphone flag lives here too, although it is client state and not round state.
-/

namespace TWA
namespace VoiceClient

def saturatingSub (a b : UInt32) : UInt32 :=
  if b ≤ a then a - b else 0

structure AsrResultAction where
  stopPlayback : Bool
  pauseMic : Bool
  deriving DecidableEq, Repr

structure RoundTracker where
  /-- An `assistant.delta` stream is under way. -/
  roundActive : Bool
  /-- The round is closed and late content is dropped. -/
  roundFinalized : Bool
  receivedAudio : Bool
  /-- The voice audio stream has started and is not done. -/
  voiceAudioOn : Bool
  micActive : Bool
  llmFirstTokenMs : UInt32
  statSent : Bool
  deriving DecidableEq, Repr

namespace RoundTracker

def new : RoundTracker :=
  { roundActive := false
    roundFinalized := false
    receivedAudio := false
    voiceAudioOn := false
    micActive := false
    llmFirstTokenMs := 0
    statSent := false }

/-- A new round begins; the microphone flag is kept. -/
def reset (r : RoundTracker) : RoundTracker :=
  { new with micActive := r.micActive }

def micStart (r : RoundTracker) : RoundTracker :=
  { r with micActive := true }

def micPause (r : RoundTracker) : RoundTracker :=
  { r with micActive := false }

def micIsActive (r : RoundTracker) : Bool :=
  r.micActive

/-!
## Round events

Each event returns its answer together with the new tracker.
-/

def onAsrResult (r : RoundTracker) : AsrResultAction × RoundTracker :=
  let action :=
    { stopPlayback := r.voiceAudioOn
      pauseMic := r.micActive }
  (action, reset { r with micActive := false })

/-- The answer is the pair of `accept` and `first`. -/
def onAssistantDelta (nowMs : UInt32) (r : RoundTracker) :
    (Bool × Bool) × RoundTracker :=
  if r.roundFinalized then
    ((false, false), r)
  else if !r.roundActive then
    ((true, true), { r with roundActive := true, llmFirstTokenMs := nowMs })
  else
    ((true, false), r)

def onVoiceAudioStart (r : RoundTracker) : Bool × RoundTracker :=
  if r.roundFinalized then
    (false, r)
  else
    (true, { r with receivedAudio := true, voiceAudioOn := true })

/-- The answer is the pair of `accept` and the latency to report, if any. -/
def onAudioChunk (nowMs : UInt32) (r : RoundTracker) :
    (Bool × Option UInt32) × RoundTracker :=
  if r.roundFinalized then
    ((false, none), r)
  else if !r.statSent && r.llmFirstTokenMs != 0 then
    ((true, some (saturatingSub nowMs r.llmFirstTokenMs)),
      { r with statSent := true })
  else
    ((true, none), r)

def onAudioDone (r : RoundTracker) : Bool × RoundTracker :=
  if r.voiceAudioOn then
    (true, { r with voiceAudioOn := false })
  else
    (false, r)

def onCompleted (r : RoundTracker) : Bool × RoundTracker :=
  if r.roundFinalized then
    (false, r)
  else
    (!r.receivedAudio, { r with roundFinalized := true, roundActive := false })

def finalizePartial (r : RoundTracker) : Bool × RoundTracker :=
  let flush := r.roundActive && !r.roundFinalized
  (flush, { r with roundActive := false, roundFinalized := true })

def resumeMicOnError (r : RoundTracker) : Bool × RoundTracker :=
  if r.micActive then
    (false, r)
  else
    (true, { r with micActive := true })

/-!
## Field lemmas

What each event does to the fields that the rest of the firmware relies on.
-/

@[simp] theorem reset_roundFinalized (r : RoundTracker) :
    r.reset.roundFinalized = false := rfl

@[simp] theorem reset_voiceAudioOn (r : RoundTracker) :
    r.reset.voiceAudioOn = false := rfl

@[simp] theorem reset_micActive (r : RoundTracker) :
    r.reset.micActive = r.micActive := rfl

@[simp] theorem reset_roundActive (r : RoundTracker) :
    r.reset.roundActive = false := rfl

@[simp] theorem reset_receivedAudio (r : RoundTracker) :
    r.reset.receivedAudio = false := rfl

@[simp] theorem micStart_micActive (r : RoundTracker) :
    r.micStart.micActive = true := rfl

@[simp] theorem micStart_roundFinalized (r : RoundTracker) :
    r.micStart.roundFinalized = r.roundFinalized := rfl

@[simp] theorem micStart_voiceAudioOn (r : RoundTracker) :
    r.micStart.voiceAudioOn = r.voiceAudioOn := rfl

@[simp] theorem micStart_roundActive (r : RoundTracker) :
    r.micStart.roundActive = r.roundActive := rfl

@[simp] theorem micStart_receivedAudio (r : RoundTracker) :
    r.micStart.receivedAudio = r.receivedAudio := rfl

@[simp] theorem micPause_micActive (r : RoundTracker) :
    r.micPause.micActive = false := rfl

@[simp] theorem micPause_roundFinalized (r : RoundTracker) :
    r.micPause.roundFinalized = r.roundFinalized := rfl

@[simp] theorem micPause_voiceAudioOn (r : RoundTracker) :
    r.micPause.voiceAudioOn = r.voiceAudioOn := rfl

@[simp] theorem micPause_roundActive (r : RoundTracker) :
    r.micPause.roundActive = r.roundActive := rfl

@[simp] theorem micPause_receivedAudio (r : RoundTracker) :
    r.micPause.receivedAudio = r.receivedAudio := rfl

@[simp] theorem onAsrResult_stopPlayback (r : RoundTracker) :
    r.onAsrResult.1.stopPlayback = r.voiceAudioOn := rfl

@[simp] theorem onAsrResult_pauseMic (r : RoundTracker) :
    r.onAsrResult.1.pauseMic = r.micActive := rfl

@[simp] theorem onAsrResult_roundFinalized (r : RoundTracker) :
    r.onAsrResult.2.roundFinalized = false := rfl

@[simp] theorem onAsrResult_voiceAudioOn (r : RoundTracker) :
    r.onAsrResult.2.voiceAudioOn = false := rfl

@[simp] theorem onAsrResult_micActive (r : RoundTracker) :
    r.onAsrResult.2.micActive = false := rfl

@[simp] theorem onAsrResult_roundActive (r : RoundTracker) :
    r.onAsrResult.2.roundActive = false := rfl

@[simp] theorem onAsrResult_receivedAudio (r : RoundTracker) :
    r.onAsrResult.2.receivedAudio = false := rfl

@[simp] theorem onAssistantDelta_accept (now : UInt32) (r : RoundTracker) :
    (r.onAssistantDelta now).1.1 = !r.roundFinalized := by
  unfold onAssistantDelta
  cases r.roundFinalized <;> cases r.roundActive <;> rfl

@[simp] theorem onAssistantDelta_roundFinalized (now : UInt32)
    (r : RoundTracker) :
    (r.onAssistantDelta now).2.roundFinalized = r.roundFinalized := by
  unfold onAssistantDelta
  split
  · rfl
  · split <;> rfl

@[simp] theorem onAssistantDelta_voiceAudioOn (now : UInt32)
    (r : RoundTracker) :
    (r.onAssistantDelta now).2.voiceAudioOn = r.voiceAudioOn := by
  unfold onAssistantDelta
  split
  · rfl
  · split <;> rfl

@[simp] theorem onAssistantDelta_micActive (now : UInt32) (r : RoundTracker) :
    (r.onAssistantDelta now).2.micActive = r.micActive := by
  unfold onAssistantDelta
  split
  · rfl
  · split <;> rfl

@[simp] theorem onAssistantDelta_receivedAudio (now : UInt32)
    (r : RoundTracker) :
    (r.onAssistantDelta now).2.receivedAudio = r.receivedAudio := by
  unfold onAssistantDelta
  split
  · rfl
  · split <;> rfl

@[simp] theorem onAssistantDelta_roundActive (now : UInt32)
    (r : RoundTracker) :
    (r.onAssistantDelta now).2.roundActive =
      (!r.roundFinalized || r.roundActive) := by
  unfold onAssistantDelta
  cases hfinal : r.roundFinalized <;> cases hactive : r.roundActive <;>
    simp [hactive]

theorem onAssistantDelta_first (now : UInt32) (r : RoundTracker) :
    (r.onAssistantDelta now).1.2 = (!r.roundFinalized && !r.roundActive) := by
  unfold onAssistantDelta
  cases r.roundFinalized <;> cases r.roundActive <;> rfl

@[simp] theorem onVoiceAudioStart_accept (r : RoundTracker) :
    r.onVoiceAudioStart.1 = !r.roundFinalized := by
  unfold onVoiceAudioStart
  cases r.roundFinalized <;> rfl

@[simp] theorem onVoiceAudioStart_roundFinalized (r : RoundTracker) :
    r.onVoiceAudioStart.2.roundFinalized = r.roundFinalized := by
  unfold onVoiceAudioStart
  split <;> rfl

@[simp] theorem onVoiceAudioStart_micActive (r : RoundTracker) :
    r.onVoiceAudioStart.2.micActive = r.micActive := by
  unfold onVoiceAudioStart
  split <;> rfl

@[simp] theorem onVoiceAudioStart_roundActive (r : RoundTracker) :
    r.onVoiceAudioStart.2.roundActive = r.roundActive := by
  unfold onVoiceAudioStart
  split <;> rfl

@[simp] theorem onVoiceAudioStart_receivedAudio (r : RoundTracker) :
    r.onVoiceAudioStart.2.receivedAudio =
      (!r.roundFinalized || r.receivedAudio) := by
  unfold onVoiceAudioStart
  cases r.roundFinalized <;> rfl

theorem onVoiceAudioStart_voiceAudioOn (r : RoundTracker) :
    r.onVoiceAudioStart.2.voiceAudioOn =
      (!r.roundFinalized || r.voiceAudioOn) := by
  unfold onVoiceAudioStart
  cases r.roundFinalized <;> rfl

@[simp] theorem onAudioChunk_accept (now : UInt32) (r : RoundTracker) :
    (r.onAudioChunk now).1.1 = !r.roundFinalized := by
  unfold onAudioChunk
  split
  · simp_all
  · split <;> simp_all

@[simp] theorem onAudioChunk_roundFinalized (now : UInt32) (r : RoundTracker) :
    (r.onAudioChunk now).2.roundFinalized = r.roundFinalized := by
  unfold onAudioChunk
  split
  · rfl
  · split <;> rfl

@[simp] theorem onAudioChunk_voiceAudioOn (now : UInt32) (r : RoundTracker) :
    (r.onAudioChunk now).2.voiceAudioOn = r.voiceAudioOn := by
  unfold onAudioChunk
  split
  · rfl
  · split <;> rfl

@[simp] theorem onAudioChunk_micActive (now : UInt32) (r : RoundTracker) :
    (r.onAudioChunk now).2.micActive = r.micActive := by
  unfold onAudioChunk
  split
  · rfl
  · split <;> rfl

@[simp] theorem onAudioChunk_roundActive (now : UInt32) (r : RoundTracker) :
    (r.onAudioChunk now).2.roundActive = r.roundActive := by
  unfold onAudioChunk
  split
  · rfl
  · split <;> rfl

@[simp] theorem onAudioChunk_receivedAudio (now : UInt32) (r : RoundTracker) :
    (r.onAudioChunk now).2.receivedAudio = r.receivedAudio := by
  unfold onAudioChunk
  split
  · rfl
  · split <;> rfl

@[simp] theorem onAudioDone_closed (r : RoundTracker) :
    r.onAudioDone.1 = r.voiceAudioOn := by
  unfold onAudioDone
  cases r.voiceAudioOn <;> rfl

@[simp] theorem onAudioDone_voiceAudioOn (r : RoundTracker) :
    r.onAudioDone.2.voiceAudioOn = false := by
  unfold onAudioDone
  cases h : r.voiceAudioOn <;> simp [h]

@[simp] theorem onAudioDone_roundFinalized (r : RoundTracker) :
    r.onAudioDone.2.roundFinalized = r.roundFinalized := by
  unfold onAudioDone
  split <;> rfl

@[simp] theorem onAudioDone_micActive (r : RoundTracker) :
    r.onAudioDone.2.micActive = r.micActive := by
  unfold onAudioDone
  split <;> rfl

@[simp] theorem onAudioDone_roundActive (r : RoundTracker) :
    r.onAudioDone.2.roundActive = r.roundActive := by
  unfold onAudioDone
  split <;> rfl

@[simp] theorem onAudioDone_receivedAudio (r : RoundTracker) :
    r.onAudioDone.2.receivedAudio = r.receivedAudio := by
  unfold onAudioDone
  split <;> rfl

@[simp] theorem onCompleted_roundFinalized (r : RoundTracker) :
    r.onCompleted.2.roundFinalized = true := by
  unfold onCompleted
  cases h : r.roundFinalized <;> simp [h]

@[simp] theorem onCompleted_voiceAudioOn (r : RoundTracker) :
    r.onCompleted.2.voiceAudioOn = r.voiceAudioOn := by
  unfold onCompleted
  split <;> rfl

@[simp] theorem onCompleted_micActive (r : RoundTracker) :
    r.onCompleted.2.micActive = r.micActive := by
  unfold onCompleted
  split <;> rfl

@[simp] theorem onCompleted_roundActive (r : RoundTracker) :
    r.onCompleted.2.roundActive = (r.roundFinalized && r.roundActive) := by
  unfold onCompleted
  cases r.roundFinalized <;> rfl

@[simp] theorem onCompleted_receivedAudio (r : RoundTracker) :
    r.onCompleted.2.receivedAudio = r.receivedAudio := by
  unfold onCompleted
  split <;> rfl

theorem onCompleted_fallback (r : RoundTracker) :
    r.onCompleted.1 = (!r.roundFinalized && !r.receivedAudio) := by
  unfold onCompleted
  cases r.roundFinalized <;> rfl

@[simp] theorem finalizePartial_roundFinalized (r : RoundTracker) :
    r.finalizePartial.2.roundFinalized = true := rfl

@[simp] theorem finalizePartial_voiceAudioOn (r : RoundTracker) :
    r.finalizePartial.2.voiceAudioOn = r.voiceAudioOn := rfl

@[simp] theorem finalizePartial_micActive (r : RoundTracker) :
    r.finalizePartial.2.micActive = r.micActive := rfl

@[simp] theorem finalizePartial_roundActive (r : RoundTracker) :
    r.finalizePartial.2.roundActive = false := rfl

@[simp] theorem finalizePartial_receivedAudio (r : RoundTracker) :
    r.finalizePartial.2.receivedAudio = r.receivedAudio := rfl

theorem finalizePartial_flush (r : RoundTracker) :
    r.finalizePartial.1 = (r.roundActive && !r.roundFinalized) := rfl

@[simp] theorem resumeMicOnError_resumed (r : RoundTracker) :
    r.resumeMicOnError.1 = !r.micActive := by
  unfold resumeMicOnError
  cases r.micActive <;> rfl

@[simp] theorem resumeMicOnError_micActive (r : RoundTracker) :
    r.resumeMicOnError.2.micActive = true := by
  unfold resumeMicOnError
  cases h : r.micActive <;> simp [h]

@[simp] theorem resumeMicOnError_roundFinalized (r : RoundTracker) :
    r.resumeMicOnError.2.roundFinalized = r.roundFinalized := by
  unfold resumeMicOnError
  split <;> rfl

@[simp] theorem resumeMicOnError_voiceAudioOn (r : RoundTracker) :
    r.resumeMicOnError.2.voiceAudioOn = r.voiceAudioOn := by
  unfold resumeMicOnError
  split <;> rfl

@[simp] theorem resumeMicOnError_roundActive (r : RoundTracker) :
    r.resumeMicOnError.2.roundActive = r.roundActive := by
  unfold resumeMicOnError
  split <;> rfl

@[simp] theorem resumeMicOnError_receivedAudio (r : RoundTracker) :
    r.resumeMicOnError.2.receivedAudio = r.receivedAudio := by
  unfold resumeMicOnError
  split <;> rfl

end RoundTracker
end VoiceClient
end TWA
