import TWA.Main.System

/-!
# The two microphone flags

The flag that says whether the microphone is sent is kept twice.  The main loop
and the server events change both copies together, and so does the start of a
session; the end of a session clears one of them only.
-/

namespace TWA

open Foundation
open Foundation.Exec
open VoiceClient

namespace Main

/-!
## Server events and the flags
-/

inductive FlagCase (ev : ServerEvent) (s s' : Shared) : Prop where
  | same (hev : forall text, ev ≠ .asrResult text)
      (hmic : s'.micActive = s.micActive)
      (htracker : s'.tracker.micActive = s.tracker.micActive)
      (hasr : s'.asrPending = s.asrPending)
  | pause (text : Text) (hev : ev = .asrResult text)
      (hmic : s'.micActive = (s.micActive && !s.tracker.micActive))
      (htracker : s'.tracker.micActive = false) (hasr : s'.asrPending = true)
  | resume (hev : forall text, ev ≠ .asrResult text)
      (hoff : s.tracker.micActive = false) (hmic : s'.micActive = true)
      (htracker : s'.tracker.micActive = true) (hasr : s'.asrPending = false)

section Events

variable {textWidth : Text -> Int} {rnd : Rat -> Rat} {now : UInt32}
  {latency : Option UInt32} {s s' : Shared}

theorem resumeMicOnError_flags {ev : ServerEvent}
    (hev : forall text, ev ≠ .asrResult text) (s : Shared) :
    FlagCase ev s (resumeMicOnError s) := by
  rw [resumeMicOnError_eq]
  cases hmic : s.tracker.micActive with
  | true => exact FlagCase.same hev (by simp) hmic.symm (by simp)
  | false => exact FlagCase.resume hev hmic (by simp) rfl (by simp)

theorem handleServerEvent_flags {ev : ServerEvent}
    (h : handleServerEvent textWidth rnd now ev s = .ok (latency, s')) :
    FlagCase ev s s' := by
  cases ev with
  | asrResult text =>
      cases h
      rw [asrResult_eq]
      exact FlagCase.pause text rfl rfl rfl rfl
  | assistantError message =>
      cases h
      have hresume : FlagCase (.assistantError message) (finalizePartial textWidth s)
          (resumeMicOnError (finalizePartial textWidth s)) :=
        resumeMicOnError_flags (by simp) _
      rw [finalizePartial_eq] at hresume ⊢
      cases hresume with
      | same hev hmic htracker hasr => exact FlagCase.same hev hmic htracker hasr
      | pause text hev _ _ _ => cases hev
      | resume hev hoff hmic htracker hasr =>
          exact FlagCase.resume hev hoff hmic htracker hasr
  | error message =>
      cases h
      exact resumeMicOnError_flags (by simp) s
  | audioChunk b64 =>
      have htracker : (s.tracker.onAudioChunk now).2.micActive = s.tracker.micActive :=
        RoundTracker.onAudioChunk_micActive now s.tracker
      rcases audioChunk_cases h with ⟨rfl, _⟩ | ⟨n, audio, _, _, rfl⟩
      · exact FlagCase.same (by simp) rfl htracker rfl
      · exact FlagCase.same (by simp) rfl htracker rfl
  | vadSpeaking speaking =>
      cases h
      cases speaking <;> exact FlagCase.same (by simp) rfl rfl rfl
  | assistantDelta text =>
      cases h
      rw [assistantDelta_eq]
      exact FlagCase.same (by simp) rfl (by simp) rfl
  | audioStart rate =>
      cases h
      rw [audioStart_eq]
      exact FlagCase.same (by simp) rfl (by simp) rfl
  | audioDone =>
      cases h
      rw [audioDone_eq]
      exact FlagCase.same (by simp) rfl (by simp) rfl
  | assistantCompleted text =>
      cases h
      exact FlagCase.same (by simp) rfl (by simp [assistantCompleted]) rfl
  | interruptAck =>
      cases h
      rw [finalizePartial_eq]
      exact FlagCase.same (by simp) rfl rfl rfl
  | _ =>
      cases h
      exact FlagCase.same (by simp) rfl rfl rfl

end Events

/-!
## Agreement
-/

/-- Both copies of the flag are the same, and `resume_mic_on_error` answers that the
microphone has to be started just when it is off. -/
structure FlagsAgree (s : System) : Prop where
  same : s.shared.micActive = s.shared.tracker.micIsActive
  resume : s.shared.tracker.resumeMicOnError.1 = !s.shared.micActive

theorem flagsAgree_iff (s : System) :
    FlagsAgree s <-> s.shared.micActive = s.shared.tracker.micActive := by
  constructor
  · intro h
    exact h.same
  · intro h
    refine ⟨h, ?_⟩
    rw [RoundTracker.resumeMicOnError_resumed, h]

/-- The step in which the task gives a session up: its socket fails, or sending does
after the session has come up. -/
def EndsSession (l : Label) (s : System) : Prop :=
  l = .voice .lost ∨ (l = .voice (.sent false) ∧ s.voicePc ≠ .sendingStart)

def EndsPaused (l : Label) (s : System) : Prop :=
  EndsSession l s -> s.shared.tracker.micIsActive = false

section Agreement

variable {textWidth : Text -> Int} {rnd : Rat -> Rat}

theorem Moves.flags {m m' : AppLoop} {s s' : Shared} (h : Moves m m' s s')
    (hs : s.micActive = s.tracker.micActive) : s'.micActive = s'.tracker.micActive := by
  cases h.turn with
  | quiet _ hmic htracker _ => rw [hmic, htracker, hs]
  | listen _ hmic htracker _ => rw [hmic, htracker]; rfl
  | pause _ hmic htracker _ => rw [hmic, htracker]; rfl

theorem FlagCase.agree {ev : ServerEvent} {s s' : Shared} (h : FlagCase ev s s')
    (hs : s.micActive = s.tracker.micActive) : s'.micActive = s'.tracker.micActive := by
  cases h with
  | same _ hmic htracker _ => rw [hmic, htracker, hs]
  | pause _ _ hmic htracker _ => rw [hmic, htracker, hs, Bool.and_not_self]
  | resume _ _ hmic htracker _ => rw [hmic, htracker]

/-- From a state in which they agree, a step keeps the flags together unless it ends a
session with the microphone on. -/
theorem Step.flagsAgree {l : Label} {s t : System} (hs : FlagsAgree s)
    (h : Step textWidth rnd l s t) : FlagsAgree t <-> EndsPaused l s := by
  rw [flagsAgree_iff] at hs ⊢
  have hkept (hl : ¬ EndsSession l s)
      (ht : t.shared.micActive = t.shared.tracker.micActive) :
      t.shared.micActive = t.shared.tracker.micActive <-> EndsPaused l s :=
    ⟨fun _ hends => absurd hends hl, fun _ => ht⟩
  cases h with
  | main _ hmain =>
      apply hkept (by simp [EndsSession])
      rcases mainStep_cases hmain with ⟨_, hpump⟩ | ⟨_, hmoves⟩
      · simp only [hpump.micActive, hpump.tracker, hs]
      · exact hmoves.flags hs
  | voice _ hvoice =>
      rcases s with ⟨mainPc, app, voicePc, shared⟩
      cases voiceStep_cases hvoice with
      | start _ => exact hkept (by simp [EndsSession]) hs
      | up => exact hkept (by simp [EndsSession]) hs
      | refused => exact hkept (by simp [EndsSession]) hs
      | interrupt _ =>
          apply hkept (by simp [EndsSession])
          rw [takeInterrupt_eq]
          exact hs
      | idle _ _ hinp =>
          refine hkept ?_ hs
          rcases hinp with rfl | rfl | rfl | ⟨now, rfl, _⟩ <;> simp [EndsSession]
      | take _ _ => exact hkept (by simp [EndsSession]) hs
      | event _ hhandle _ =>
          exact hkept (by simp [EndsSession]) ((handleServerEvent_flags hhandle).agree hs)
      | lost hup hinp =>
          constructor
          · intro ht _
            exact ht.symm
          · intro hpaused
            refine (hpaused ?_).symm
            rcases hinp with rfl | rfl
            · exact Or.inl rfl
            · exact Or.inr ⟨rfl, hup.2.1⟩

theorem boot_flagsAgree {s : System} (h : Init s) : FlagsAgree s := by
  rcases h with ⟨reserve, rfl⟩
  exact ⟨rfl, rfl⟩

/-- In a run in which no session ends with the microphone on, the flags agree in
every state; and only such an end can part them. -/
theorem mic_flags_agree {s0 s : System} {ls : List Label} (h0 : Init s0)
    (hrun : Run (Guarded EndsPaused (Step textWidth rnd)) s0 ls s) :
    FlagsAgree s ∧
      forall l t, Step textWidth rnd l s t -> (FlagsAgree t <-> EndsPaused l s) :=
  hrun.guarded_exact (fun _ _ _ hs hstep => hstep.flagsAgree hs) (boot_flagsAgree h0)

end Agreement

/-- Through the first session the flags agree, up to the first listening. -/
theorem mic_flags_agree_first_session :
    exists s, s.app.state = .listening ∧ s.shared.micActive = true ∧
      Run (Guarded EndsPaused (Step monospace F32.round))
        (System.boot (.new fun _ => true)) firstSession s ∧ FlagsAgree s := by
  have hrun : Run (Guarded EndsPaused (Step monospace F32.round))
      (System.boot (.new fun _ => true)) firstSession
      (waitingAt 0 (listeningLoop 6000) (listeningShared (.new fun _ => true))) := by
    refine (firstSession_listens monospace F32.round (new_silent _)).mono ?_
    intro l s t hguarded
    rcases hguarded with ⟨hearly, hstep⟩
    refine ⟨fun hends => ?_, hstep⟩
    rcases hends with hlost | ⟨hfailed, _⟩
    · exact absurd hlost hearly.calm.1
    · exact absurd hfailed hearly.calm.2.1
  exact ⟨_, rfl, rfl, hrun, (mic_flags_agree ⟨_, rfl⟩ hrun).1⟩

/-- Losing the session while listening leaves the tracker with the microphone on. -/
theorem session_loss_parts_flags :
    exists s, Reachable Init (Step monospace F32.round) s ∧
      s.mainPc.suspended = true ∧ s.voicePc.suspended = true ∧
      s.shared.micActive = false ∧ s.shared.tracker.micIsActive = true ∧
      ¬ FlagsAgree s := by
  have hrun := (firstSession_listens monospace F32.round
    (new_silent fun _ => true)).of_guarded
  have hlost := hrun.snoc (l := .voice .lost) (Step.voice rfl rfl)
  refine ⟨_, ⟨_, _, ⟨_, rfl⟩, hlost⟩, rfl, rfl, rfl, rfl, ?_⟩
  intro hagree
  cases hagree.same

end Main
end TWA
