import TWA.Main.LateContent

/-!
# The age of the audio that is sent

The microphone channel outlives every pause and every session, and nothing empties
it.  A chunk is stamped with the start of the microphone and the session it was
recorded in; it is sent in time if both are still the last ones.
-/

namespace TWA

open Foundation
open Foundation.Exec
open VoiceClient

namespace Main

/-- The chunk was recorded since the flag was last raised, and in this session. -/
def Current (s : Shared) (chunk : MicChunk) : Prop :=
  chunk.micEpoch = s.micEpoch ∧ chunk.session = s.session

def QueueCurrent (s : Shared) : Prop :=
  forall chunk, chunk ∈ s.micCh -> Current s chunk

/-!
## What a step does to the channel
-/

structure KeepsQueue (s s' : Shared) : Prop where
  flag : s'.micActive = true -> s.micActive = true
  epoch : s'.micEpoch = s.micEpoch
  session : s'.session = s.session
  queue : forall chunk, chunk ∈ s'.micCh -> chunk ∈ s.micCh ∨ Current s chunk

structure StartsMic (s s' : Shared) : Prop where
  flag : s'.micActive = true
  epoch : s'.micEpoch = if s.micActive then s.micEpoch else s.micEpoch + 1
  session : s'.session = s.session
  queue : s'.micCh = s.micCh

inductive QueueCase (s s' : Shared) : Prop where
  | kept (h : KeepsQueue s s')
  | started (h : StartsMic s s')

section Cases

variable {s t u : Shared}

theorem KeepsQueue.refl (s : Shared) : KeepsQueue s s :=
  ⟨id, rfl, rfl, fun _ => Or.inl⟩

theorem KeepsQueue.of_same (hflag : t.micActive = s.micActive)
    (hepoch : t.micEpoch = s.micEpoch) (hsession : t.session = s.session)
    (hqueue : t.micCh = s.micCh) : KeepsQueue s t := by
  refine ⟨fun h => hflag.symm.trans h, hepoch, hsession, fun chunk h => ?_⟩
  rw [hqueue] at h
  exact Or.inl h

theorem KeepsQueue.trans (hst : KeepsQueue s t) (htu : KeepsQueue t u) :
    KeepsQueue s u := by
  refine ⟨fun h => hst.flag (htu.flag h), htu.epoch.trans hst.epoch,
    htu.session.trans hst.session, fun chunk h => ?_⟩
  rcases htu.queue chunk h with hold | hcurrent
  · exact hst.queue chunk hold
  · exact Or.inr ⟨hcurrent.1.trans hst.epoch, hcurrent.2.trans hst.session⟩

theorem StartsMic.keeps (h : StartsMic s t) (hon : s.micActive = true) :
    KeepsQueue s t := by
  refine KeepsQueue.of_same (h.flag.trans hon.symm) ?_ h.session h.queue
  rw [h.epoch, if_pos hon]

theorem KeepsQueue.lowered (hflag : t.micActive = false) (hepoch : t.micEpoch = s.micEpoch)
    (hsession : t.session = s.session) (hqueue : t.micCh = s.micCh) : KeepsQueue s t := by
  refine ⟨fun h => ?_, hepoch, hsession, fun chunk h => ?_⟩
  · rw [hflag] at h
    cases h
  · rw [hqueue] at h
    exact Or.inl h

theorem KeepsQueue.of_still {m m' : AppLoop} (h : Still m m' s t) : KeepsQueue s t := by
  refine KeepsQueue.of_same ?_ ?_ ?_ ?_
  · rw [h.shared]
  · rw [h.shared]
  · rw [h.shared]
  · rw [h.shared]

theorem StartsMic.still {m m' : AppLoop} (h : StartsMic s t) (hstill : Still m m' t u) :
    StartsMic s u := by
  refine ⟨?_, ?_, ?_, ?_⟩
  · rw [hstill.shared]
    exact h.flag
  · rw [hstill.shared]
    exact h.epoch
  · rw [hstill.shared]
    exact h.session
  · rw [hstill.shared]
    exact h.queue

end Cases

section MainLoop

variable {textWidth : Text -> Int} {rnd : Rat -> Rat} {inp : MainInput}
  {pc pc' : MainPc} {m m' : AppLoop} {s s' : Shared}

theorem startListening_queue (now : UInt32) (m : AppLoop) (s : Shared) :
    StartsMic s (startListening now m s).2 := by
  refine ⟨rfl, ?_, rfl, rfl⟩
  cases hflag : s.micActive <;> simp [startListening, trackerMicStart, storeMicActive, hflag]

theorem startPlaying_queue (m : AppLoop) (s : Shared) :
    KeepsQueue s (startPlaying m s).2 :=
  KeepsQueue.lowered rfl rfl rfl rfl

theorem stopListening_queue (now : UInt32) (m : AppLoop) (s : Shared) :
    KeepsQueue s (stopListening now m s).2 :=
  KeepsQueue.lowered rfl rfl rfl rfl

theorem readMic_queue (mic : Option (List UInt8)) (s : Shared) :
    KeepsQueue s (readMic mic s) := by
  unfold readMic
  split
  · exact KeepsQueue.refl s
  · split
    · refine ⟨id, rfl, rfl, fun chunk h => ?_⟩
      rcases List.mem_append.mp h with hold | hnew
      · exact Or.inl hold
      · rw [List.mem_singleton.mp hnew]
        exact Or.inr ⟨rfl, rfl⟩
    · exact KeepsQueue.refl s

theorem passTop_queue (h : passTop textWidth rnd inp m s = .ok (pc', m', s')) :
    KeepsQueue s s' := by
  rcases bind_eq_ok.mp h with ⟨⟨started, pushed, audio⟩, _, h⟩
  rcases bind_eq_ok.mp h with ⟨display, _, h⟩
  cases h
  exact KeepsQueue.of_same rfl rfl rfl rfl

theorem mainStep_queue (h : mainStep textWidth rnd inp pc m s = .ok (pc', m', s')) :
    QueueCase s s' := by
  by_cases hpc : pc = .top
  · rw [hpc] at h
    exact QueueCase.kept (passTop_queue h)
  · cases mainStep_case hpc h with
    | still hstill => exact QueueCase.kept (KeepsQueue.of_still hstill)
    | listens p _ _ hstill =>
        exact QueueCase.started ((startListening_queue p.now m s).still hstill)
    | records mic hstill =>
        exact QueueCase.kept ((readMic_queue mic s).trans (KeepsQueue.of_still hstill))
    | plays mic _ hstill =>
        exact QueueCase.kept ((readMic_queue mic s).trans
          ((startPlaying_queue m _).trans (KeepsQueue.of_still hstill)))
    | stops p mic _ _ hstill =>
        exact QueueCase.kept ((readMic_queue mic s).trans
          ((stopListening_queue p.now m _).trans (KeepsQueue.of_still hstill)))

end MainLoop

section VoiceTask

variable {textWidth : Text -> Int} {rnd : Rat -> Rat} {now : UInt32}
  {latency : Option UInt32} {s s' : Shared}

theorem handleServerEvent_queue {ev : ServerEvent}
    (h : handleServerEvent textWidth rnd now ev s = .ok (latency, s')) :
    QueueCase s s' := by
  have hframe := handleServerEvent_frame h
  have hsession : s'.session = s.session := by rw [hframe]
  have hqueue : s'.micCh = s.micCh := by rw [hframe]
  have hepoch : s'.micEpoch =
      if s'.micActive && !s.micActive then s.micEpoch + 1 else s.micEpoch :=
    congrArg Shared.micEpoch hframe
  cases hflag : s'.micActive with
  | false =>
      rw [hflag, if_neg (by simp)] at hepoch
      exact QueueCase.kept (KeepsQueue.lowered hflag hepoch hsession hqueue)
  | true =>
      refine QueueCase.started ⟨hflag, ?_, hsession, hqueue⟩
      rw [hepoch, hflag]
      cases s.micActive <;> rfl

theorem voiceStep_queue {pc pc' : VoicePc} {inp : VoiceInput} (hinp : inp ≠ .connected)
    (h : voiceStep textWidth rnd pc inp s = .ok (some (pc', s'))) : QueueCase s s' := by
  have hsame {t : Shared} (hflag : t.micActive = s.micActive)
      (hepoch : t.micEpoch = s.micEpoch) (hsession : t.session = s.session)
      (hqueue : t.micCh = s.micCh) : QueueCase s t :=
    QueueCase.kept (KeepsQueue.of_same hflag hepoch hsession hqueue)
  cases voiceStep_cases h with
  | start _ => exact absurd rfl hinp
  | up => exact hsame rfl rfl rfl rfl
  | refused => exact hsame rfl rfl rfl rfl
  | interrupt _ =>
      rw [takeInterrupt_eq]
      exact hsame rfl rfl rfl rfl
  | idle _ _ _ => exact hsame rfl rfl rfl rfl
  | take _ hch =>
      refine QueueCase.kept ⟨id, rfl, rfl, fun chunk hmem => ?_⟩
      rw [hch]
      exact Or.inl (List.mem_cons_of_mem _ hmem)
  | event _ hhandle _ => exact handleServerEvent_queue hhandle
  | lost _ _ => exact QueueCase.kept (KeepsQueue.lowered rfl rfl rfl rfl)

end VoiceTask

/-!
## Runs
-/

section Runs

variable (textWidth : Text -> Int) (rnd : Rat -> Rat)

def RaisesMic (l : Label) (s : System) : Prop :=
  s.shared.micActive = false ∧
    exists t, Step textWidth rnd l s t ∧ t.shared.micActive = true

/-- The channel is empty where the microphone or a session starts. -/
def StartsEmpty (l : Label) (s : System) : Prop :=
  RaisesMic textWidth rnd l s ∨ l = .voice .connected -> s.shared.micCh = []

variable {textWidth rnd} {l : Label} {s t : System}

theorem Step.unique {t' : System} (h : Step textWidth rnd l s t)
    (h' : Step textWidth rnd l s t') : t = t' := by
  cases h with
  | main _ hmain =>
      cases h' with
      | main _ hmain' =>
          rw [hmain] at hmain'
          cases hmain'
          rfl
  | voice _ hvoice =>
      cases h' with
      | voice _ hvoice' =>
          rw [hvoice] at hvoice'
          cases hvoice'
          rfl

theorem Step.queue (h : Step textWidth rnd l s t) (hl : l ≠ .voice .connected) :
    QueueCase s.shared t.shared := by
  cases h with
  | main _ hmain => exact mainStep_queue hmain
  | voice _ hvoice => exact voiceStep_queue (by simpa using hl) hvoice

theorem Step.connected (h : Step textWidth rnd (.voice .connected) s t) :
    t.shared = startSession s.shared := by
  rcases s with ⟨mainPc, app, voicePc, shared⟩
  cases h with
  | voice _ hvoice =>
      cases voiceStep_cases hvoice with
      | start _ => rfl
      | idle _ _ hinp => rcases hinp with hother | hgo | hsent | ⟨now, hclock, _⟩ <;> contradiction
      | lost _ hinp => rcases hinp with hlost | hfailed <;> contradiction

theorem KeepsQueue.queueCurrent {s t : Shared} (h : KeepsQueue s t) (hs : QueueCurrent s) :
    QueueCurrent t := by
  intro chunk hmem
  have hcurrent : Current s chunk := (h.queue chunk hmem).elim (hs chunk) id
  exact ⟨hcurrent.1.trans h.epoch.symm, hcurrent.2.trans h.session.symm⟩

theorem queueCurrent_iff_nil {s t : Shared} (hs : QueueCurrent s) (hqueue : t.micCh = s.micCh)
    (hcount : t.micEpoch ≠ s.micEpoch ∨ t.session ≠ s.session) :
    QueueCurrent t <-> s.micCh = [] := by
  constructor
  · intro ht
    apply List.eq_nil_iff_forall_not_mem.mpr
    intro chunk hmem
    have hold := hs chunk hmem
    have hnew := ht chunk (hqueue ▸ hmem)
    rcases hcount with hepoch | hsession
    · exact hepoch (hnew.1.symm.trans hold.1)
    · exact hsession (hnew.2.symm.trans hold.2)
  · intro hnil chunk hmem
    rw [hqueue, hnil] at hmem
    cases hmem

theorem Step.queueCurrent (hs : QueueCurrent s.shared) (h : Step textWidth rnd l s t) :
    QueueCurrent t.shared <-> StartsEmpty textWidth rnd l s := by
  by_cases hl : l = .voice .connected
  · subst hl
    have hstart := h.connected
    have hqueue : t.shared.micCh = s.shared.micCh := by rw [hstart]; rfl
    have hsession : t.shared.session = s.shared.session + 1 := by rw [hstart]; rfl
    rw [queueCurrent_iff_nil hs hqueue (Or.inr (by omega))]
    exact ⟨fun hnil _ => hnil, fun hguard => hguard (Or.inr rfl)⟩
  · have hkept (hkeeps : KeepsQueue s.shared t.shared) :
        QueueCurrent t.shared <-> StartsEmpty textWidth rnd l s := by
      refine ⟨fun _ hraises => ?_, fun _ => hkeeps.queueCurrent hs⟩
      rcases hraises with ⟨hoff, t', hstep, hon⟩ | hcontra
      · rw [← h.unique hstep] at hon
        rw [hkeeps.flag hon] at hoff
        cases hoff
      · exact absurd hcontra hl
    cases h.queue hl with
    | kept hkeeps => exact hkept hkeeps
    | started hstarted =>
        cases hflag : s.shared.micActive with
        | true => exact hkept (hstarted.keeps hflag)
        | false =>
            have hepoch := hstarted.epoch
            rw [hflag, if_neg (by simp)] at hepoch
            rw [queueCurrent_iff_nil hs hstarted.queue (Or.inl (by omega))]
            exact ⟨fun hnil _ => hnil,
              fun hguard => hguard (Or.inl ⟨hflag, t, h, hstarted.flag⟩)⟩

theorem boot_queueCurrent (h : Init s) : QueueCurrent s.shared := by
  rcases h with ⟨reserve, rfl⟩
  intro chunk hmem
  cases hmem

theorem Step.sends {now : UInt32} {chunk : MicChunk}
    (h : Step textWidth rnd (.voice .go) s t) (hsend : t.voicePc = .sendingMic now chunk) :
    exists rest, s.shared.micCh = chunk :: rest ∧
      t.shared = { s.shared with micCh := rest } := by
  rcases s with ⟨mainPc, app, voicePc, shared⟩
  cases h with
  | voice _ hvoice =>
      cases voicePc with
      | uplink now' =>
          injection hvoice with hvoice
          injection hvoice with hvoice
          unfold uplink at hvoice
          split at hvoice
          · split at hvoice
            · cases hvoice
              cases hsend
            · rename_i chunk' rest hch
              cases hvoice
              cases hsend
              exact ⟨rest, hch, rfl⟩
          · cases hvoice
            cases hsend
      | _ => cases hvoice

/-- In a run in which the channel is empty at every start of the microphone and of a
session, whatever is sent is current; and only a start of the other kind can leave
older chunks in the channel. -/
theorem sent_audio_current {s0 : System} {ls : List Label} (h0 : Init s0)
    (hrun : Run (Guarded (StartsEmpty textWidth rnd) (Step textWidth rnd)) s0 ls s) :
    (forall now chunk t, Step textWidth rnd (.voice .go) s t ->
      t.voicePc = .sendingMic now chunk -> Current t.shared chunk) ∧
      forall l t, Step textWidth rnd l s t ->
        (QueueCurrent t.shared <-> StartsEmpty textWidth rnd l s) := by
  have hexact := hrun.guarded_exact (P := fun s => QueueCurrent s.shared)
    (fun _ _ _ hs hstep => hstep.queueCurrent hs) (boot_queueCurrent h0)
  refine ⟨fun now chunk t hstep hsend => ?_, hexact.2⟩
  rcases hstep.sends hsend with ⟨rest, hch, hshared⟩
  rw [hshared]
  exact hexact.1 chunk (by rw [hch]; exact List.mem_cons_self)

theorem StartsEmpty.of_on (hon : s.shared.micActive = true) (hl : l ≠ .voice .connected) :
    StartsEmpty textWidth rnd l s := by
  intro hstart
  rcases hstart with ⟨hoff, _⟩ | hcontra
  · rw [hon] at hoff
    cases hoff
  · exact absurd hcontra hl

end Runs

/-!
## A chunk that waits
-/

section Recording

def recorded : MicChunk :=
  { data := [1, 0], micEpoch := 1, session := 1 }

def recording : List Label :=
  [.main (calm 6001), .main (calm 6001), .main { calm 6001 with mic := some [1, 0] },
    .main (calm 6001), .main (calm 6001)]

def recordedAt (a : AudioOutput) : System :=
  waitingAt 0 (listeningLoop 6000) { listeningShared a with micCh := [recorded] }

theorem listeningArm_records {s : Shared} {p : Pass} {m : AppLoop} {data : List UInt8}
    (hon : s.micActive = true) (hroom : s.micCh.length < micChCapacity)
    (hbuffered : s.audio.buffered = .ok 0)
    (hearly : p.now - m.listenStarted ≤ Config.listenTimeoutMs) :
    listeningArm (some data) p false m s =
      .ok (.volUp p, m,
        { s with
          micCh := s.micCh ++
            [{ data := data, micEpoch := s.micEpoch, session := s.session }] }) := by
  have hread : readMic (some data) s =
      { s with
        micCh := s.micCh ++
          [{ data := data, micEpoch := s.micEpoch, session := s.session }] } := by
    simp [readMic, hon, hroom]
  have hstays : listenTimeout p.now m (readMic (some data) s) = (m, readMic (some data) s) :=
    if_neg fun hlate => UInt32.not_lt.mpr hearly hlate.2
  unfold listeningArm
  rw [hread] at hstays ⊢
  simp only [hbuffered, ok_bind, gt_iff_lt, Nat.lt_irrefl, if_false, hstays]
  rfl

theorem first_chunk_recorded (textWidth : Text -> Int) (rnd : Rat -> Rat) :
    Run (Guarded (StartsEmpty textWidth rnd) (Step textWidth rnd))
      (System.boot (.new fun _ => true)) (firstSession ++ recording)
      (recordedAt (.new fun _ => true)) := by
  have hfirst : Run (Guarded (StartsEmpty textWidth rnd) (Step textWidth rnd))
      (System.boot (.new fun _ => true)) firstSession
      (waitingAt 0 (listeningLoop 6000) (listeningShared (.new fun _ => true))) :=
    firstSession_run textWidth rnd (new_silent _) fun _ _ _ hempty _ => hempty
  have hon {l : Label} {s : System} (hflag : s.shared.micActive = true)
      (hl : l ≠ .voice .connected) : StartsEmpty textWidth rnd l s :=
    StartsEmpty.of_on hflag hl
  refine hfirst.append ?_
  refine Run.cons ⟨hon rfl (by simp), Step.main rfl rfl⟩ ?_
  refine Run.cons ⟨hon rfl (by simp),
    Step.main rfl (passTop_silent (new_silent _) (calm 6001) _ _ rfl rfl)⟩ ?_
  refine Run.cons ⟨hon rfl (by simp), Step.main rfl (listeningArm_records rfl (by decide)
    (withRing_buffered (by decide)) (by decide))⟩ ?_
  refine Run.cons ⟨hon rfl (by simp), Step.main rfl rfl⟩ ?_
  refine Run.cons ⟨hon rfl (by simp), Step.main rfl rfl⟩ ?_
  exact Run.nil _

/-- The chunk of the first session is sent while it is current. -/
theorem sent_audio_current_first_chunk :
    exists s t, s.voicePc = .uplink 50 ∧ t.voicePc = .sendingMic 50 recorded ∧
      Run (Guarded (StartsEmpty monospace F32.round) (Step monospace F32.round))
        (System.boot (.new fun _ => true))
        (firstSession ++ recording ++ [.voice .other] ++ [.voice (.clock 50)]) s ∧
      Step monospace F32.round (.voice .go) s t ∧ Current t.shared recorded := by
  have hrun := first_chunk_recorded monospace F32.round
  have htop := hrun.snoc (l := .voice .other)
    ⟨StartsEmpty.of_on rfl (by simp), Step.voice rfl rfl⟩
  have huplink := htop.snoc (l := .voice (.clock 50))
    ⟨StartsEmpty.of_on rfl (by simp), Step.voice rfl rfl⟩
  refine ⟨_, _, rfl, ?_, huplink, Step.voice rfl rfl, ?_⟩
  · rfl
  · exact (sent_audio_current ⟨_, rfl⟩ huplink).1 50 recorded _ (Step.voice rfl rfl) rfl

def asrFrame : List UInt8 :=
  Json.bytes "\x7b\"type\":\"asr.result\",\"text\":\"x\"\x7d"

theorem asrFrame_event : parseServerMessage asrFrame = .ok (.asrResult ['x']) := by
  decide +kernel

/-- A chunk waits while an `asr.result` pauses the microphone and an error starts it
again; then it is sent. -/
theorem stale_audio_sent :
    exists s t, Reachable Init (Step monospace F32.round) s ∧
      Step monospace F32.round (.voice .go) s t ∧ t.voicePc = .sendingMic 0 recorded ∧
      t.shared.micEpoch = 2 ∧ ¬ Current t.shared recorded := by
  have hrun := (first_chunk_recorded monospace F32.round).of_guarded
  have hpaused := hrun.snoc (l := .voice (.text asrFrame))
    (Step.text rfl rfl asrFrame_event rfl)
  have hround := hpaused.snoc (l := .voice (.clock 0)) (Step.voice rfl rfl)
  have hwaits := hround.snoc (l := .voice .go) (Step.voice rfl rfl)
  have hstarted := hwaits.snoc (l := .voice (.text errorFrame))
    (Step.text rfl rfl errorFrame_event rfl)
  have huplink := hstarted.snoc (l := .voice (.clock 0)) (Step.voice rfl rfl)
  refine ⟨_, _, ⟨_, _, ⟨_, rfl⟩, huplink⟩, Step.voice rfl rfl, rfl, rfl, ?_⟩
  intro hcurrent
  cases hcurrent.1

end Recording

end Main
end TWA
