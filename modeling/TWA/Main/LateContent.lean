import TWA.Display.FullText
import TWA.Main.System

/-!
# Late content

Once a round has been closed by an interrupt or an error, what still arrives for it
is to be dropped.  The tracker refuses late deltas and audio for as long as the
round is closed.  A late `assistant.completed` is not refused: its text goes to the
display.
-/

namespace TWA

open Foundation
open Foundation.Exec
open VoiceClient

namespace Main

def Late : ServerEvent -> Prop
  | .assistantDelta _ | .audioStart _ | .audioChunk _ | .audioDone => True
  | .assistantCompleted _ => True
  | _ => False

structure SameContent (s s' : Shared) : Prop where
  history : s'.display.history = s.display.history
  curLine : s'.display.curLine = s.display.curLine
  typingRest : s'.display.typingRest = s.display.typingRest
  ring : s'.audio.ring = s.audio.ring
  head : s'.audio.head = s.audio.head
  tail : s'.audio.tail = s.audio.tail

theorem SameContent.refl (s : Shared) : SameContent s s :=
  ⟨rfl, rfl, rfl, rfl, rfl, rfl⟩

theorem SameContent.trans_iff {s t u : Shared} (h : SameContent s t) :
    SameContent s u <-> SameContent t u := by
  constructor
  · intro hu
    exact ⟨hu.history.trans h.history.symm, hu.curLine.trans h.curLine.symm,
      hu.typingRest.trans h.typingRest.symm, hu.ring.trans h.ring.symm,
      hu.head.trans h.head.symm, hu.tail.trans h.tail.symm⟩
  · intro hu
    exact ⟨hu.history.trans h.history, hu.curLine.trans h.curLine,
      hu.typingRest.trans h.typingRest, hu.ring.trans h.ring, hu.head.trans h.head,
      hu.tail.trans h.tail⟩

section Rounds

variable (textWidth : Text -> Int) (rnd : Rat -> Rat)

def HandlesLate (e : UInt32 × ServerEvent) (s s' : Shared) : Prop :=
  Late e.2 ∧
    exists latency, handleServerEvent textWidth rnd e.1 e.2 s = .ok (latency, s')

/-- If the event brings a full text, it changes nothing that is shown. -/
def NotShown (e : UInt32 × ServerEvent) (s : Shared) : Prop :=
  forall text, e.2 = .assistantCompleted text ->
    s.display.FullTextShown textWidth text

/-- The steps that close the round: an interrupt, its acknowledgement or an error of
the assistant. -/
def ClosesEarly (l : Label) (s : System) : Prop :=
  (exists now, l = .voice (.clock now) ∧ s.voicePc = .top ∧ s.shared.intReq = true) ∨
    exists payload ev, l = .voice (.text payload) ∧
      parseServerMessage payload = .ok ev ∧
      (ev = .interruptAck ∨ exists message, ev = .assistantError message)

/-- A step of the same round: no `asr.result` is handled and no session starts. -/
def SameRound (l : Label) (_ : System) : Prop :=
  l ≠ .voice .connected ∧
    forall payload text, l = .voice (.text payload) ->
      parseServerMessage payload ≠ .ok (.asrResult text)

/-- In some run from boot a round has been closed early, and has not been left since. -/
def AfterClosing (s : System) : Prop :=
  exists s1 s2 l ls, Reachable Init (Step textWidth rnd) s1 ∧ ClosesEarly l s1 ∧
    Step textWidth rnd l s1 s2 ∧
    Run (Guarded SameRound (Step textWidth rnd)) s2 ls s

end Rounds

/-!
## The round stays closed
-/

section Closed

variable {textWidth : Text -> Int} {rnd : Rat -> Rat} {now : UInt32}
  {latency : Option UInt32} {s s' : Shared}

theorem handleServerEvent_closes {ev : ServerEvent}
    (hev : ev = .interruptAck ∨ exists message, ev = .assistantError message)
    (h : handleServerEvent textWidth rnd now ev s = .ok (latency, s')) :
    s'.tracker.roundFinalized = true := by
  rcases hev with rfl | ⟨message, rfl⟩
  · cases h
    rw [finalizePartial_eq]
    exact RoundTracker.finalizePartial_roundFinalized _
  · cases h
    rw [resumeMicOnError_eq, finalizePartial_eq]
    exact RoundTracker.finalizePartial_roundFinalized s.tracker

theorem handleServerEvent_closed {ev : ServerEvent}
    (hev : forall text, ev ≠ .asrResult text)
    (hs : s.tracker.roundFinalized = true)
    (h : handleServerEvent textWidth rnd now ev s = .ok (latency, s')) :
    s'.tracker.roundFinalized = true := by
  cases ev with
  | asrResult text => exact absurd rfl (hev text)
  | interruptAck => exact handleServerEvent_closes (Or.inl rfl) h
  | assistantError message => exact handleServerEvent_closes (Or.inr ⟨message, rfl⟩) h
  | audioChunk b64 =>
      have hfinal := RoundTracker.onAudioChunk_roundFinalized now s.tracker
      rcases audioChunk_cases h with ⟨rfl, _⟩ | ⟨n, audio, _, _, rfl⟩
      · exact hfinal.trans hs
      · exact hfinal.trans hs
  | assistantDelta text =>
      cases h
      rw [assistantDelta_eq]
      exact (RoundTracker.onAssistantDelta_roundFinalized now s.tracker).trans hs
  | audioStart rate =>
      cases h
      rw [audioStart_eq]
      exact (RoundTracker.onVoiceAudioStart_roundFinalized s.tracker).trans hs
  | audioDone =>
      cases h
      rw [audioDone_eq]
      exact (RoundTracker.onAudioDone_roundFinalized s.tracker).trans hs
  | assistantCompleted text =>
      cases h
      exact RoundTracker.onCompleted_roundFinalized s.tracker
  | error message =>
      cases h
      rw [resumeMicOnError_eq]
      exact hs
  | vadSpeaking speaking =>
      cases h
      cases speaking <;> exact hs
  | _ =>
      cases h
      exact hs

theorem Step.closes {l : Label} {s t : System} (hcloses : ClosesEarly l s)
    (h : Step textWidth rnd l s t) : t.shared.tracker.roundFinalized = true := by
  rcases s with ⟨mainPc, app, voicePc, shared⟩
  cases h with
  | main _ _ => rcases hcloses with ⟨now, hl, _⟩ | ⟨payload, ev, hl, _⟩ <;> cases hl
  | voice _ hvoice =>
      rcases hcloses with ⟨now, hl, hpc, hreq⟩ | ⟨payload, ev, hl, hparse, hev⟩
      · cases hl
        cases voiceStep_cases hvoice with
        | interrupt _ =>
            rw [takeInterrupt_eq]
            exact RoundTracker.finalizePartial_roundFinalized _
        | idle hup _ hinp =>
            rcases hinp with hinp | hinp | hinp | ⟨now', hinp, hnone⟩
            · cases hinp
            · cases hinp
            · cases hinp
            · have hreq' : shared.intReq = true := hreq
              rw [hnone] at hreq'
              cases hreq'
        | lost _ hinp => rcases hinp with hinp | hinp <;> cases hinp
      · cases hl
        cases voiceStep_cases hvoice with
        | event hparse' hhandle _ =>
            rw [hparse] at hparse'
            cases hparse'
            exact handleServerEvent_closes hev hhandle
        | idle _ _ hinp =>
            rcases hinp with hinp | hinp | hinp | ⟨now', hinp, _⟩ <;> cases hinp
        | lost _ hinp => rcases hinp with hinp | hinp <;> cases hinp

theorem Step.closed {l : Label} {s t : System} (hsame : SameRound l s)
    (hs : s.shared.tracker.roundFinalized = true) (h : Step textWidth rnd l s t) :
    t.shared.tracker.roundFinalized = true := by
  rcases s with ⟨mainPc, app, voicePc, shared⟩
  cases h with
  | main _ hmain =>
      rcases mainStep_cases hmain with ⟨_, hpump⟩ | ⟨_, hmoves⟩
      · show _ = true
        rw [hpump.tracker]
        exact hs
      · rcases hmoves.turn.tracker_eq with ⟨b, htracker⟩
        show _ = true
        rw [htracker]
        exact hs
  | voice _ hvoice =>
      cases voiceStep_cases hvoice with
      | start _ => exact absurd rfl hsame.1
      | up => exact hs
      | refused => exact hs
      | interrupt _ =>
          rw [takeInterrupt_eq]
          exact RoundTracker.finalizePartial_roundFinalized _
      | idle _ _ _ => exact hs
      | take _ _ => exact hs
      | event hparse hhandle _ =>
          refine handleServerEvent_closed (fun text hev => ?_) hs hhandle
          rw [hev] at hparse
          exact hsame.2 _ _ rfl hparse
      | lost _ _ => exact hs

theorem AfterClosing.closed {s : System} (h : AfterClosing textWidth rnd s) :
    s.shared.tracker.roundFinalized = true := by
  rcases h with ⟨s1, s2, l, ls, _, hcloses, hstep, hrun⟩
  exact hrun.invariant (P := fun s => s.shared.tracker.roundFinalized = true)
    (fun _ _ _ hs hguarded => hguarded.2.closed hguarded.1 hs) (hstep.closes hcloses)

/-!
## What late events do
-/

theorem audioChunk_refused (b64 : Text) (hs : s.tracker.roundFinalized = true) :
    audioChunk rnd now b64 s =
      .ok (none, { s with tracker := (s.tracker.onAudioChunk now).2 }) := by
  have haccept := RoundTracker.onAudioChunk_accept now s.tracker
  rw [hs, Bool.not_true] at haccept
  unfold audioChunk
  simp only [haccept]
  rfl

/-- Late events are handled, and leave the content as it was if they bring no new full
text. -/
theorem late_handled {e : UInt32 × ServerEvent} (hlate : Late e.2)
    (hs : s.tracker.roundFinalized = true) :
    exists s', HandlesLate textWidth rnd e s s' ∧
      s'.tracker.roundFinalized = true ∧
      (SameContent s s' <-> NotShown textWidth e s) := by
  rcases e with ⟨now, ev⟩
  have hhandled {latency : Option UInt32} {s' : Shared}
      (hev : forall text, ev ≠ .asrResult text)
      (h : handleServerEvent textWidth rnd now ev s = .ok (latency, s'))
      (hcontent : SameContent s s' <-> NotShown textWidth (now, ev) s) :
      exists s', HandlesLate textWidth rnd (now, ev) s s' ∧
        s'.tracker.roundFinalized = true ∧
        (SameContent s s' <-> NotShown textWidth (now, ev) s) :=
    ⟨s', ⟨hlate, latency, h⟩, handleServerEvent_closed hev hs h, hcontent⟩
  have hrefused {s' : Shared} (hev : forall text, ev ≠ .assistantCompleted text)
      (hsame : SameContent s s') : SameContent s s' <-> NotShown textWidth (now, ev) s :=
    ⟨fun _ text heq => absurd heq (hev text), fun _ => hsame⟩
  cases ev with
  | assistantDelta text =>
      refine hhandled (by simp) rfl (hrefused (by simp) ?_)
      rw [assistantDelta_eq, hs, if_pos rfl]
      exact ⟨rfl, rfl, rfl, rfl, rfl, rfl⟩
  | audioStart rate =>
      refine hhandled (by simp) rfl (hrefused (by simp) ?_)
      rw [audioStart_eq, hs, if_pos rfl]
      exact ⟨rfl, rfl, rfl, rfl, rfl, rfl⟩
  | audioChunk b64 =>
      refine hhandled (by simp) (audioChunk_refused b64 hs) (hrefused (by simp) ?_)
      exact ⟨rfl, rfl, rfl, rfl, rfl, rfl⟩
  | audioDone =>
      refine hhandled (by simp) rfl (hrefused (by simp) ?_)
      rw [audioDone_eq]
      cases s.tracker.voiceAudioOn <;> exact ⟨rfl, rfl, rfl, rfl, rfl, rfl⟩
  | assistantCompleted text =>
      refine hhandled (by simp) rfl ?_
      have hshown := Display.setReplyFullText_shown textWidth text s.display
      constructor
      · intro hsame text' heq
        cases heq
        exact hshown.mp ⟨hsame.history, hsame.curLine, hsame.typingRest⟩
      · intro hnothing
        rcases hshown.mpr (hnothing text rfl) with ⟨hhistory, hcur, hrest⟩
        exact ⟨hhistory, hcur, hrest, rfl, rfl, rfl⟩
  | _ => exact absurd hlate id

theorem handlesLate_unique {e : UInt32 × ServerEvent} {s s' t : Shared}
    (h : HandlesLate textWidth rnd e s s') (ht : HandlesLate textWidth rnd e s t) :
    s' = t := by
  rcases h with ⟨_, latency, h⟩
  rcases ht with ⟨_, latency', ht⟩
  rw [h] at ht
  cases ht
  rfl

/-- After a round has been closed early, late events that bring no new full text leave
the content as it was, and the next one does if and only if it brings none. -/
theorem late_content_dropped {s : System} {s' : Shared}
    {es : List (UInt32 × ServerEvent)} (h : AfterClosing textWidth rnd s)
    (hrun : Run (Guarded (NotShown textWidth) (HandlesLate textWidth rnd))
      s.shared es s') :
    SameContent s.shared s' ∧
      forall e, Late e.2 ->
        exists t, HandlesLate textWidth rnd e s' t ∧
          (SameContent s.shared t <-> NotShown textWidth e s') := by
  have hboth : SameContent s.shared s' ∧ s'.tracker.roundFinalized = true := by
    refine hrun.invariant (P := fun s' => SameContent s.shared s' ∧
      s'.tracker.roundFinalized = true) ?_ ⟨SameContent.refl _, h.closed⟩
    intro e u v hu hguarded
    rcases hu with ⟨hsame, hclosed⟩
    rcases hguarded with ⟨hnothing, hstep⟩
    rcases late_handled hstep.1 hclosed with ⟨v', hhandles, hstays, hcontent⟩
    rw [handlesLate_unique hstep hhandles]
    exact ⟨hsame.trans_iff.mpr (hcontent.mpr hnothing), hstays⟩
  refine ⟨hboth.1, fun e hlate => ?_⟩
  have hnext : exists t, HandlesLate textWidth rnd e s' t ∧
      t.tracker.roundFinalized = true ∧
      (SameContent s' t <-> NotShown textWidth e s') :=
    late_handled hlate hboth.2
  rcases hnext with ⟨t, hhandles, _, hcontent⟩
  exact ⟨t, hhandles, hboth.1.trans_iff.trans hcontent⟩

end Closed

/-!
## An error and what comes after it
-/

def errorFrame : List UInt8 :=
  Json.bytes "\x7b\"type\":\"assistant.error\",\"message\":\"e\"\x7d"

def completedFrame : List UInt8 :=
  Json.bytes "\x7b\"type\":\"assistant.completed\",\"text\":\"x\"\x7d"

theorem errorFrame_event :
    parseServerMessage errorFrame = .ok (.assistantError ['e']) := by
  decide +kernel

theorem completedFrame_event :
    parseServerMessage completedFrame = .ok (.assistantCompleted ['x']) := by
  decide +kernel

def afterError (a : AudioOutput) : System :=
  waitingAt 0 (listeningLoop 6000)
    (resumeMicOnError (finalizePartial monospace (listeningShared a)))

theorem afterError_afterClosing :
    AfterClosing monospace F32.round (afterError (.new fun _ => true)) := by
  have hrun := (firstSession_listens monospace F32.round
    (new_silent fun _ => true)).of_guarded
  refine ⟨_, _, .voice (.text errorFrame), [.voice (.clock 0), .voice .go],
    ⟨_, _, ⟨_, rfl⟩, hrun⟩,
    Or.inr ⟨_, _, rfl, errorFrame_event, Or.inr ⟨_, rfl⟩⟩,
    Step.text rfl rfl errorFrame_event rfl, ?_⟩
  refine Run.cons ⟨by simp [SameRound], Step.voice rfl rfl⟩ ?_
  refine Run.cons ⟨by simp [SameRound], Step.voice rfl rfl⟩ ?_
  exact Run.nil _

/-- A late delta, a late chunk and an empty full text after an error. -/
theorem late_content_dropped_after_error :
    exists s s' es, AfterClosing monospace F32.round s ∧ es ≠ [] ∧
      Run (Guarded (NotShown monospace) (HandlesLate monospace F32.round)) s.shared es
        s' ∧
      SameContent s.shared s' := by
  have hruns : exists s', Run (Guarded (NotShown monospace)
      (HandlesLate monospace F32.round)) (afterError (.new fun _ => true)).shared
      [(0, .assistantDelta ['x']), (0, .audioChunk (Text.lit "AAA=")),
        (0, .assistantCompleted [])] s' := by
    refine ⟨_, Run.cons ⟨?_, trivial, none, rfl⟩ (Run.cons ⟨?_, trivial, none, rfl⟩
      (Run.cons ⟨?_, trivial, none, rfl⟩ (Run.nil _)))⟩
    · intro text heq
      cases heq
    · intro text heq
      cases heq
    · intro text heq
      cases heq
      exact ⟨rfl, rfl, Or.inl rfl⟩
  rcases hruns with ⟨s', hrun⟩
  exact ⟨_, s', _, afterError_afterClosing, by simp, hrun,
    (late_content_dropped afterError_afterClosing hrun).1⟩

/-- The full text of a reply that an error has ended is typed all the same. -/
theorem late_completed_shown :
    exists s t, AfterClosing monospace F32.round s ∧
      Step monospace F32.round (.voice (.text completedFrame)) s t ∧
      s.shared.display.typingRest = [] ∧ t.shared.display.typingRest = ['x'] ∧
      ¬ SameContent s.shared t.shared := by
  refine ⟨_, _, afterError_afterClosing, Step.text rfl rfl completedFrame_event rfl,
    rfl, rfl, ?_⟩
  intro hsame
  cases hsame.typingRest

end Main
end TWA
