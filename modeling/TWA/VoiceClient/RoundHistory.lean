import TWA.VoiceClient.RoundTracker
import TWA.Foundation.Histories

/-!
# What the round tracker answers

The tracker keeps booleans, but its rules speak about the events of a
round.  This module states the rules over the list of all calls so far and
proves that the booleans answer them: one call takes a tracker that agrees
with a history to a tracker that agrees with the longer history.
-/

namespace TWA
namespace VoiceClient

open Foundation

inductive TrackerCall where
  | onAsrResult
  | reset
  | micStart
  | micPause
  | onAssistantDelta (nowMs : UInt32)
  | onVoiceAudioStart
  | onAudioChunk (nowMs : UInt32)
  | onAudioDone
  | onCompleted
  | finalizePartial
  | resumeMicOnError
  deriving DecidableEq, Repr

namespace TrackerCall

def run (r : RoundTracker) : TrackerCall -> RoundTracker
  | onAsrResult => r.onAsrResult.2
  | reset => r.reset
  | micStart => r.micStart
  | micPause => r.micPause
  | onAssistantDelta nowMs => (r.onAssistantDelta nowMs).2
  | onVoiceAudioStart => r.onVoiceAudioStart.2
  | onAudioChunk nowMs => (r.onAudioChunk nowMs).2
  | onAudioDone => r.onAudioDone.2
  | onCompleted => r.onCompleted.2
  | finalizePartial => r.finalizePartial.2
  | resumeMicOnError => r.resumeMicOnError.2

def opensRound : TrackerCall -> Bool
  | onAsrResult => true
  | reset => true
  | _ => false

def isDelta : TrackerCall -> Bool
  | onAssistantDelta _ => true
  | _ => false

def setsMic : TrackerCall -> Option Bool
  | onAsrResult => some false
  | micStart => some true
  | micPause => some false
  | resumeMicOnError => some true
  | _ => none

end TrackerCall

def runTracker (calls : List TrackerCall) : RoundTracker :=
  calls.foldl TrackerCall.run RoundTracker.new

theorem runTracker_snoc (calls : List TrackerCall) (c : TrackerCall) :
    runTracker (calls ++ [c]) = c.run (runTracker calls) := by
  simp [runTracker]

/-!
# The rules, as properties of the history
-/

/-- The calls since the last one that opened a round. -/
def currentRound (calls : List TrackerCall) : List TrackerCall :=
  sectionOf TrackerCall.opensRound calls

def Finalized (round : List TrackerCall) : Prop :=
  TrackerCall.onCompleted ∈ round ∨ TrackerCall.finalizePartial ∈ round

def HasAcceptedDelta (round : List TrackerCall) : Prop :=
  Happened (fun before c => c.isDelta = true ∧ ¬ Finalized before) round

def HasAcceptedStart (round : List TrackerCall) : Prop :=
  Happened
    (fun before c => c = TrackerCall.onVoiceAudioStart ∧ ¬ Finalized before) round

/-- An accepted audio start with no audio done after it. -/
def HasOpenAudio (round : List TrackerCall) : Prop :=
  HappenedSince
    (fun before c => c = TrackerCall.onVoiceAudioStart ∧ ¬ Finalized before)
    (fun c => c ≠ TrackerCall.onAudioDone) round

/-- The last call that set the microphone state switched it on. -/
def MicOn (calls : List TrackerCall) : Prop :=
  HappenedSince (fun _ c => c.setsMic = some true) (fun c => c.setsMic = none)
    calls

structure Agrees (calls : List TrackerCall) (r : RoundTracker) : Prop where
  finalized : r.roundFinalized = true <-> Finalized (currentRound calls)
  active : r.roundActive = true <->
    HasAcceptedDelta (currentRound calls) ∧ ¬ Finalized (currentRound calls)
  received : r.receivedAudio = true <-> HasAcceptedStart (currentRound calls)
  audioOn : r.voiceAudioOn = true <-> HasOpenAudio (currentRound calls)
  mic : r.micActive = true <-> MicOn calls

/-!
# One more call
-/

section OneMore

variable (round calls : List TrackerCall) (c : TrackerCall)

theorem finalized_snoc :
    Finalized (round ++ [c]) <->
      (c = TrackerCall.onCompleted ∨ c = TrackerCall.finalizePartial) ∨
        Finalized round := by
  unfold Finalized
  simp only [List.mem_append, List.mem_singleton]
  constructor
  · intro h
    rcases h with (h | h) | (h | h)
    · exact Or.inr (Or.inl h)
    · exact Or.inl (Or.inl h.symm)
    · exact Or.inr (Or.inr h)
    · exact Or.inl (Or.inr h.symm)
  · intro h
    rcases h with (h | h) | (h | h)
    · exact Or.inl (Or.inr h.symm)
    · exact Or.inr (Or.inr h.symm)
    · exact Or.inl (Or.inl h)
    · exact Or.inr (Or.inl h)

theorem hasAcceptedDelta_snoc :
    HasAcceptedDelta (round ++ [c]) <->
      (c.isDelta = true ∧ ¬ Finalized round) ∨ HasAcceptedDelta round :=
  happened_snoc round c

theorem hasAcceptedStart_snoc :
    HasAcceptedStart (round ++ [c]) <->
      (c = TrackerCall.onVoiceAudioStart ∧ ¬ Finalized round) ∨
        HasAcceptedStart round :=
  happened_snoc round c

theorem hasOpenAudio_snoc :
    HasOpenAudio (round ++ [c]) <->
      (c = TrackerCall.onVoiceAudioStart ∧ ¬ Finalized round) ∨
        (c ≠ TrackerCall.onAudioDone ∧ HasOpenAudio round) :=
  happenedSince_snoc round c

theorem micOn_snoc :
    MicOn (calls ++ [c]) <->
      c.setsMic = some true ∨ (c.setsMic = none ∧ MicOn calls) :=
  happenedSince_snoc calls c

end OneMore

theorem agrees_nil : Agrees [] RoundTracker.new where
  finalized := by simp [RoundTracker.new, currentRound, Finalized]
  active := by simp [RoundTracker.new, currentRound, HasAcceptedDelta]
  received := by simp [RoundTracker.new, currentRound, HasAcceptedStart]
  audioOn := by simp [RoundTracker.new, currentRound, HasOpenAudio]
  mic := by simp [RoundTracker.new, MicOn]

/-!
The booleans of a call that does not open a round move exactly as the
predicates above do.
-/

section OneMoreField

variable {c : TrackerCall} (r : RoundTracker)

theorem run_roundFinalized (hstays : c.opensRound = false) :
    (c.run r).roundFinalized = true <->
      (c = TrackerCall.onCompleted ∨ c = TrackerCall.finalizePartial) ∨
        r.roundFinalized = true := by
  cases c <;> simp_all [TrackerCall.run, TrackerCall.opensRound]

theorem run_roundActive (hstays : c.opensRound = false)
    (hidle : r.roundFinalized = true -> r.roundActive = false) :
    (c.run r).roundActive = true <->
      ¬ (c = TrackerCall.onCompleted ∨ c = TrackerCall.finalizePartial) ∧
        ((c.isDelta = true ∧ r.roundFinalized = false) ∨ r.roundActive = true) := by
  cases c <;> simp_all [TrackerCall.run, TrackerCall.opensRound, TrackerCall.isDelta]

theorem run_receivedAudio (hstays : c.opensRound = false) :
    (c.run r).receivedAudio = true <->
      (c = TrackerCall.onVoiceAudioStart ∧ r.roundFinalized = false) ∨
        r.receivedAudio = true := by
  cases c <;> simp_all [TrackerCall.run, TrackerCall.opensRound]

theorem run_voiceAudioOn (hstays : c.opensRound = false) :
    (c.run r).voiceAudioOn = true <->
      (c = TrackerCall.onVoiceAudioStart ∧ r.roundFinalized = false) ∨
        (c ≠ TrackerCall.onAudioDone ∧ r.voiceAudioOn = true) := by
  cases c <;> simp_all [TrackerCall.run, TrackerCall.opensRound,
    RoundTracker.onVoiceAudioStart_voiceAudioOn]

theorem run_micActive (c : TrackerCall) :
    (c.run r).micActive = true <->
      c.setsMic = some true ∨ (c.setsMic = none ∧ r.micActive = true) := by
  cases c <;> simp [TrackerCall.run, TrackerCall.setsMic]

end OneMoreField

theorem Agrees.open_iff {calls : List TrackerCall} {r : RoundTracker}
    (h : Agrees calls r) :
    r.roundFinalized = false <-> ¬ Finalized (currentRound calls) := by
  rw [← h.finalized]
  simp

theorem Agrees.idle {calls : List TrackerCall} {r : RoundTracker}
    (h : Agrees calls r) (hfinal : r.roundFinalized = true) :
    r.roundActive = false := by
  cases hactive : r.roundActive with
  | false => rfl
  | true =>
      have hround := (h.active.mp hactive).2
      exact absurd (h.finalized.mp hfinal) hround

theorem run_opens {c : TrackerCall} (r : RoundTracker)
    (hopens : c.opensRound = true) :
    (c.run r).roundFinalized = false ∧ (c.run r).roundActive = false ∧
      (c.run r).receivedAudio = false ∧ (c.run r).voiceAudioOn = false := by
  cases c <;> simp_all [TrackerCall.run, TrackerCall.opensRound]

theorem agrees_snoc {calls : List TrackerCall} {r : RoundTracker}
    (h : Agrees calls r) (c : TrackerCall) : Agrees (calls ++ [c]) (c.run r) := by
  have hmic : (c.run r).micActive = true <-> MicOn (calls ++ [c]) := by
    rw [run_micActive, micOn_snoc, h.mic]
  cases hopens : c.opensRound with
  | true =>
      have hround : currentRound (calls ++ [c]) = [] :=
        sectionOf_snoc_opens calls hopens
      rcases run_opens r hopens with ⟨hfinalized, hactive, hreceived, haudio⟩
      constructor
      · simp [hround, hfinalized, Finalized]
      · simp [hround, hactive, HasAcceptedDelta]
      · simp [hround, hreceived, HasAcceptedStart]
      · simp [hround, haudio, HasOpenAudio]
      · exact hmic
  | false =>
      have hround : currentRound (calls ++ [c]) = currentRound calls ++ [c] :=
        sectionOf_snoc_stays calls hopens
      constructor
      · rw [run_roundFinalized r hopens, hround, finalized_snoc, h.finalized]
      · rw [run_roundActive r hopens h.idle, hround, finalized_snoc,
          hasAcceptedDelta_snoc, h.open_iff, h.active]
        tauto
      · rw [run_receivedAudio r hopens, hround, hasAcceptedStart_snoc, h.open_iff,
          h.received]
      · rw [run_voiceAudioOn r hopens, hround, hasOpenAudio_snoc, h.open_iff,
          h.audioOn]
      · exact hmic

theorem agrees_runTracker (calls : List TrackerCall) :
    Agrees calls (runTracker calls) := by
  induction calls using List.reverseRecOn with
  | nil => exact agrees_nil
  | append_singleton calls c ih =>
      rw [runTracker_snoc]
      exact agrees_snoc ih c

/-- After every list of calls on a new tracker, each answer is the one that the
history of the round gives. -/
theorem roundTracker_answers_history (calls : List TrackerCall)
    (nowMs : UInt32) :
    let r := runTracker calls
    let round := currentRound calls
    (r.roundFinalized = true <-> Finalized round) ∧
      ((r.onAssistantDelta nowMs).1.1 = true <-> ¬ Finalized round) ∧
      (r.onVoiceAudioStart.1 = true <-> ¬ Finalized round) ∧
      ((r.onAudioChunk nowMs).1.1 = true <-> ¬ Finalized round) ∧
      ((r.onAssistantDelta nowMs).1.2 = true <->
        ¬ Finalized round ∧ ¬ HasAcceptedDelta round) ∧
      (r.onAudioDone.1 = true <-> HasOpenAudio round) ∧
      (r.onCompleted.1 = true <->
        ¬ Finalized round ∧ ¬ HasAcceptedStart round) ∧
      (r.finalizePartial.1 = true <->
        ¬ Finalized round ∧ HasAcceptedDelta round) ∧
      (r.onAsrResult.1.stopPlayback = true <-> HasOpenAudio round) ∧
      (r.onAsrResult.1.pauseMic = true <-> MicOn calls) ∧
      (r.resumeMicOnError.1 = true <-> ¬ MicOn calls) ∧
      r.reset.micIsActive = r.micIsActive := by
  intro r round
  have h : Agrees calls r := agrees_runTracker calls
  refine ⟨h.finalized, ?_, ?_, ?_, ?_, ?_, ?_, ?_, ?_, ?_, ?_, rfl⟩
  · rw [RoundTracker.onAssistantDelta_accept, Bool.not_eq_true', h.open_iff]
  · rw [RoundTracker.onVoiceAudioStart_accept, Bool.not_eq_true', h.open_iff]
  · rw [RoundTracker.onAudioChunk_accept, Bool.not_eq_true', h.open_iff]
  · rw [RoundTracker.onAssistantDelta_first, Bool.and_eq_true, Bool.not_eq_true',
      Bool.not_eq_true', h.open_iff, ← Bool.not_eq_true, h.active]
    tauto
  · rw [RoundTracker.onAudioDone_closed, h.audioOn]
  · rw [RoundTracker.onCompleted_fallback, Bool.and_eq_true, Bool.not_eq_true',
      Bool.not_eq_true', h.open_iff, ← Bool.not_eq_true, h.received]
  · rw [RoundTracker.finalizePartial_flush, Bool.and_eq_true, Bool.not_eq_true',
      h.open_iff, h.active]
    tauto
  · rw [RoundTracker.onAsrResult_stopPlayback, h.audioOn]
  · rw [RoundTracker.onAsrResult_pauseMic, h.mic]
  · rw [RoundTracker.resumeMicOnError_resumed, Bool.not_eq_true', ← Bool.not_eq_true,
      h.mic]

end VoiceClient
end TWA
