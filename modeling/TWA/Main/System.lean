import TWA.AudioOutput.Pump
import TWA.Foundation.Runs
import TWA.Main.AppLoop
import TWA.Main.VoiceTask

/-!
# The system

Both tasks run on one executor.  A task that does not wait keeps the processor, so
a step of one task needs the other to be suspended.
-/

namespace TWA

open Foundation
open Foundation.Exec
open VoiceClient

namespace Main

structure System where
  mainPc : MainPc
  app : AppLoop
  voicePc : VoicePc
  shared : Shared
  deriving DecidableEq, Repr

inductive Label where
  | main (inp : MainInput)
  | voice (inp : VoiceInput)
  deriving DecidableEq, Repr

/-- The voice task is spawned when the main task enters its loop. -/
def System.boot (audio : AudioOutput) : System :=
  { mainPc := .top
    app := .boot
    voicePc := .connecting
    shared := .boot audio }

def Init (s : System) : Prop :=
  exists reserve, s = System.boot (.new reserve)

section Steps

variable (textWidth : Text -> Int) (rnd : Rat -> Rat)

inductive Step : Label -> System -> System -> Prop where
  | main {inp : MainInput} {s : System} {pc : MainPc} {app : AppLoop}
      {shared : Shared} (hvoice : s.voicePc.suspended = true)
      (h : mainStep textWidth rnd inp s.mainPc s.app s.shared =
        .ok (pc, app, shared)) :
      Step (.main inp) s { s with mainPc := pc, app := app, shared := shared }
  | voice {inp : VoiceInput} {s : System} {pc : VoicePc} {shared : Shared}
      (hmain : s.mainPc.suspended = true)
      (h : voiceStep textWidth rnd s.voicePc inp s.shared =
        .ok (some (pc, shared))) :
      Step (.voice inp) s { s with voicePc := pc, shared := shared }

end Steps

theorem Step.text {textWidth : Text -> Int} {rnd : Rat -> Rat} {s : System}
    {now : UInt32} {payload : List UInt8} {ev : ServerEvent} {shared : Shared}
    (hmain : s.mainPc.suspended = true) (hpc : s.voicePc = .waiting now)
    (hparse : parseServerMessage payload = .ok ev)
    (hhandle : handleServerEvent textWidth rnd now ev s.shared = .ok (none, shared)) :
    Step textWidth rnd (.voice (.text payload)) s
      { s with voicePc := .top, shared := shared } := by
  apply Step.voice hmain
  rw [hpc]
  simp only [voiceStep, receiveText]
  rw [hparse, ok_bind, hhandle]
  rfl

/-!
## What a step of the main loop can do

Except for the pump, the main loop leaves the stream as it is, and it changes the
two microphone flags together.
-/

structure SameStream (a a' : AudioOutput) : Prop where
  ring : a'.ring = a.ring
  head : a'.head = a.head
  tail : a'.tail = a.tail
  streaming : a'.streaming = a.streaming
  doneFlag : a'.doneFlag = a.doneFlag

namespace SameStream

variable {a b c : AudioOutput}

theorem refl (a : AudioOutput) : SameStream a a :=
  ⟨rfl, rfl, rfl, rfl, rfl⟩

theorem trans (hab : SameStream a b) (hbc : SameStream b c) : SameStream a c :=
  ⟨hbc.ring.trans hab.ring, hbc.head.trans hab.head, hbc.tail.trans hab.tail,
    hbc.streaming.trans hab.streaming, hbc.doneFlag.trans hab.doneFlag⟩

theorem buffered (h : SameStream a b) : b.buffered = a.buffered := by
  unfold AudioOutput.buffered AudioOutput.cap
  rw [h.ring, h.head, h.tail]

theorem isActive (h : SameStream a b) : b.isActive = a.isActive := by
  unfold AudioOutput.isActive
  rw [h.streaming, h.buffered]

theorem reclaim (a : AudioOutput) : SameStream a a.reclaim := by
  unfold AudioOutput.reclaim
  split <;> exact ⟨rfl, rfl, rfl, rfl, rfl⟩

end SameStream

structure Keeps (s s' : Shared) : Prop where
  wsUp : s'.wsUp = s.wsUp
  stream : SameStream s.audio s'.audio

theorem Keeps.trans {s t u : Shared} (hst : Keeps s t) (htu : Keeps t u) :
    Keeps s u :=
  ⟨htu.wsUp.trans hst.wsUp, hst.stream.trans htu.stream⟩

/-- The steps of the main loop other than the pump, by what they do to the
microphone. -/
inductive Turn (st st' : AppState) (s s' : Shared) : Prop where
  | quiet (hstate : st' = st) (hmic : s'.micActive = s.micActive)
      (htracker : s'.tracker = s.tracker) (hasr : s'.asrPending = s.asrPending)
  | listen (hstate : st' = .listening) (hmic : s'.micActive = true)
      (htracker : s'.tracker = s.tracker.micStart) (hasr : s'.asrPending = false)
  | pause (hstate : st' ≠ .listening) (hmic : s'.micActive = false)
      (htracker : s'.tracker = s.tracker.micPause)
      (hasr : s'.asrPending = true -> s.asrPending = true)

theorem Turn.trans {st1 st2 st3 : AppState} {s1 s2 s3 : Shared}
    (h12 : Turn st1 st2 s1 s2) (h23 : Turn st2 st3 s2 s3) : Turn st1 st3 s1 s3 := by
  cases h23 with
  | quiet hstate hmic htracker hasr =>
      rw [hstate]
      cases h12 with
      | quiet hstate' hmic' htracker' hasr' =>
          exact Turn.quiet hstate' (hmic.trans hmic') (htracker.trans htracker')
            (hasr.trans hasr')
      | listen hstate' hmic' htracker' hasr' =>
          exact Turn.listen hstate' (hmic.trans hmic') (htracker.trans htracker')
            (hasr.trans hasr')
      | pause hstate' hmic' htracker' hasr' =>
          exact Turn.pause hstate' (hmic.trans hmic') (htracker.trans htracker')
            fun h => hasr' (hasr.symm.trans h)
  | listen hstate hmic htracker hasr =>
      refine Turn.listen hstate hmic ?_ hasr
      cases h12 with
      | quiet _ _ htracker' _ => rw [htracker, htracker']
      | listen _ _ htracker' _ => rw [htracker, htracker']; rfl
      | pause _ _ htracker' _ => rw [htracker, htracker']; rfl
  | pause hstate hmic htracker hasr =>
      cases h12 with
      | quiet _ _ htracker' hasr' =>
          exact Turn.pause hstate hmic (by rw [htracker, htracker'])
            fun h => hasr'.symm.trans (hasr h)
      | listen _ _ htracker' hasr' =>
          refine Turn.pause hstate hmic (by rw [htracker, htracker']; rfl) ?_
          intro h
          rw [hasr'] at hasr
          cases hasr h
      | pause _ _ htracker' hasr' =>
          exact Turn.pause hstate hmic (by rw [htracker, htracker']; rfl)
            fun h => hasr' (hasr h)

theorem Turn.tracker_eq {st st' : AppState} {s s' : Shared} (h : Turn st st' s s') :
    exists b, s'.tracker = { s.tracker with micActive := b } := by
  cases h with
  | quiet _ _ htracker _ => exact ⟨s.tracker.micActive, htracker⟩
  | listen _ _ htracker _ => exact ⟨true, htracker⟩
  | pause _ _ htracker _ => exact ⟨false, htracker⟩

structure Moves (m m' : AppLoop) (s s' : Shared) : Prop where
  turn : Turn m.state m'.state s s'
  keeps : Keeps s s'

structure Pump (rnd : Rat -> Rat) (inp : MainInput) (m m' : AppLoop)
    (s s' : Shared) : Prop where
  tick : exists started pushed,
    s.audio.tick rnd inp.tick = .ok (started, pushed, s'.audio)
  state : m'.state = m.state
  wsUp : s'.wsUp = s.wsUp
  micActive : s'.micActive = s.micActive
  tracker : s'.tracker = s.tracker
  asrPending : s'.asrPending = s.asrPending

namespace Moves

variable {m m1 m' : AppLoop} {s s1 s' : Shared}

theorem trans (h1 : Moves m m1 s s1) (h2 : Moves m1 m' s1 s') : Moves m m' s s' :=
  ⟨h1.turn.trans h2.turn, h1.keeps.trans h2.keeps⟩

theorem quiet (hstate : m'.state = m.state) (hup : s'.wsUp = s.wsUp)
    (hmic : s'.micActive = s.micActive) (htracker : s'.tracker = s.tracker)
    (hasr : s'.asrPending = s.asrPending) (hstream : SameStream s.audio s'.audio) :
    Moves m m' s s' :=
  ⟨Turn.quiet hstate hmic htracker hasr, hup, hstream⟩

theorem refl (m : AppLoop) (s : Shared) : Moves m m s s :=
  quiet rfl rfl rfl rfl rfl (SameStream.refl _)

theorem startListening (now : UInt32) (m : AppLoop) (s : Shared) :
    Moves m (startListening now m s).1 s (startListening now m s).2 :=
  ⟨Turn.listen rfl rfl rfl rfl, rfl, SameStream.refl _⟩

theorem startPlaying (m : AppLoop) (s : Shared) :
    Moves m (startPlaying m s).1 s (startPlaying m s).2 :=
  ⟨Turn.pause (by simp [Main.startPlaying]) rfl rfl id, rfl, SameStream.refl _⟩

theorem stopListening (now : UInt32) (m : AppLoop) (s : Shared) :
    Moves m (stopListening now m s).1 s (stopListening now m s).2 :=
  ⟨Turn.pause (by simp [Main.stopListening]) rfl rfl id, rfl, SameStream.refl _⟩

theorem readMic (mic : Option (List UInt8)) (m : AppLoop) (s : Shared) :
    Moves m m s (readMic mic s) := by
  unfold Main.readMic
  split
  · exact refl m s
  · split
    · exact quiet rfl rfl rfl rfl rfl (SameStream.refl _)
    · exact refl m s

end Moves

structure Still (m m' : AppLoop) (s s' : Shared) : Prop where
  loop : m' =
    { m with
      quietSince := m'.quietSince
      prevUp := m'.prevUp
      prevDn := m'.prevDn }
  shared : s' =
    { s with
      intReq := s'.intReq
      audio := s'.audio
      display := s'.display }
  stream : SameStream s.audio s'.audio

def Placed (pc : MainPc) (state : AppState) : Prop :=
  match pc with
  | .idleDebounce _ => state = .idle
  | .listenDebounce _ => state ≠ .idle
  | .playDebounce _ | .releasing _ | .playRelease _ => state = .playing
  | _ => True

def MainPc.pass : MainPc -> Option Pass
  | .top | .rest => none
  | .machine p _ | .idleDebounce p | .listenDebounce p | .playDebounce p | .releasing p
  | .playRelease p | .volUp p | .upDebounce p | .volDown p | .downDebounce p => some p

inductive MainCase (pc : MainPc) (m : AppLoop) (s : Shared) (m' : AppLoop) (s' : Shared) :
    Prop where
  | still (h : Still m m' s s')
  | listens (p : Pass) (hpc : pc.pass = some p)
      (hfrom : Placed pc m.state -> m.state ≠ .listening)
      (h : Still (startListening p.now m s).1 m' (startListening p.now m s).2 s')
  | records (mic : Option (List UInt8)) (h : Still m m' (readMic mic s) s')
  | plays (mic : Option (List UInt8)) (hfrom : m.state = .listening)
      (h : Still (startPlaying m (readMic mic s)).1 m' (startPlaying m (readMic mic s)).2 s')
  | stops (p : Pass) (mic : Option (List UInt8)) (hpc : pc.pass = some p)
      (hfrom : Placed pc m.state -> m.state ≠ .idle)
      (h : Still (stopListening p.now m (readMic mic s)).1 m'
        (stopListening p.now m (readMic mic s)).2 s')

namespace Still

variable {m m1 m' : AppLoop} {s s1 s' : Shared}

theorem of_frame (hloop : m' =
      { m with
        quietSince := m'.quietSince
        prevUp := m'.prevUp
        prevDn := m'.prevDn })
    (hshared : s' = { s with intReq := s'.intReq, display := s'.display }) :
    Still m m' s s' := by
  have haudio : s'.audio = s.audio := by rw [hshared]
  refine ⟨hloop, ?_, ?_⟩
  · rw [hshared]
  · rw [haudio]
    exact SameStream.refl _

theorem refl (m : AppLoop) (s : Shared) : Still m m s s :=
  of_frame rfl rfl

theorem trans (h1 : Still m m1 s s1) (h2 : Still m1 m' s1 s') : Still m m' s s' := by
  refine ⟨?_, ?_, h1.stream.trans h2.stream⟩
  · rw [h2.loop, h1.loop]
  · rw [h2.shared, h1.shared]

theorem state (h : Still m m' s s') : m'.state = m.state := by
  rw [h.loop]

theorem cooldownUntil (h : Still m m' s s') : m'.cooldownUntil = m.cooldownUntil := by
  rw [h.loop]

theorem listenStarted (h : Still m m' s s') : m'.listenStarted = m.listenStarted := by
  rw [h.loop]

theorem turn (h : Still m m' s s') : Turn m.state m'.state s s' := by
  refine Turn.quiet h.state ?_ ?_ ?_
  · rw [h.shared]
  · rw [h.shared]
  · rw [h.shared]

theorem moves (h : Still m m' s s') : Moves m m' s s' :=
  ⟨h.turn, by rw [h.shared], h.stream⟩

theorem listen_again (now : UInt32) (m : AppLoop) (s : Shared) :
    Still (startListening now m s).1
      (startListening now (startListening now m s).1 (startListening now m s).2).1
      (startListening now m s).2
      (startListening now (startListening now m s).1 (startListening now m s).2).2 :=
  of_frame rfl rfl

theorem stop_again (now : UInt32) (m : AppLoop) (s : Shared) :
    Still (stopListening now m s).1
      (stopListening now (stopListening now m s).1 (stopListening now m s).2).1
      (stopListening now m s).2
      (stopListening now (stopListening now m s).1 (stopListening now m s).2).2 :=
  of_frame rfl rfl

theorem stop_playing (now : UInt32) (m : AppLoop) (s : Shared) :
    Still (stopListening now m s).1
      (stopListening now (startPlaying m s).1 (startPlaying m s).2).1
      (stopListening now m s).2
      (stopListening now (startPlaying m s).1 (startPlaying m s).2).2 :=
  of_frame rfl rfl

theorem changeVolume (v : Int) (now : UInt32) (m : AppLoop) (s : Shared) :
    Still m m s (changeVolume v now s) := by
  have hvolume : SameStream s.audio (s.audio.setVolume v) :=
    ⟨rfl, rfl, rfl, rfl, rfl⟩
  refine ⟨rfl, rfl, ?_⟩
  unfold Main.changeVolume afterTone
  simp only
  split
  · exact hvolume
  · exact hvolume.trans (SameStream.reclaim _)

end Still

section MainSteps

variable {textWidth : Text -> Int} {rnd : Rat -> Rat} {inp : MainInput}
  {pc pc' : MainPc} {m m' : AppLoop} {s s' : Shared} {p : Pass} {talkEdge : Bool}

theorem passTop_pump
    (h : passTop textWidth rnd inp m s = .ok (pc', m', s')) :
    Pump rnd inp m m' s s' := by
  rcases bind_eq_ok.mp h with ⟨⟨started, pushed, audio⟩, htick, h⟩
  rcases bind_eq_ok.mp h with ⟨display, _, h⟩
  cases h
  exact ⟨⟨started, pushed, htick⟩, rfl, rfl, rfl, rfl, rfl⟩

theorem quietCheck_case {now : UInt32} (h : quietCheck now m s = .ok (m', s')) :
    Still m m' s s' ∨ (m', s') = startListening now m s := by
  rcases bind_eq_ok.mp h with ⟨active, _, h⟩
  cases active with
  | true =>
      cases h
      exact Or.inl (Still.of_frame rfl rfl)
  | false =>
      simp only [Bool.not_false, if_true] at h
      split at h
      · cases h
        exact Or.inl (Still.of_frame rfl rfl)
      · split at h
        · cases h
          exact Or.inr rfl
        · cases h
          exact Or.inl (Still.refl _ _)

theorem listenTimeout_case (now : UInt32) (m : AppLoop) (s : Shared) :
    listenTimeout now m s = stopListening now m s ∨ listenTimeout now m s = (m, s) :=
  ite_eq_or_eq _ _ _

theorem MainCase.quietCheck (hpc : pc.pass = some p)
    (hfrom : Placed pc m.state -> m.state ≠ .listening)
    (h : quietCheck p.now m s = .ok (m', s')) : MainCase pc m s m' s' := by
  rcases quietCheck_case h with hstill | hlisten
  · exact MainCase.still hstill
  · refine MainCase.listens p hpc hfrom ?_
    rw [← hlisten]
    exact Still.refl m' s'

theorem listeningArm_case {mic : Option (List UInt8)} (hstate : m.state = .listening)
    (hpc : pc.pass = some p) (h : listeningArm mic p talkEdge m s = .ok (pc', m', s')) :
    MainCase pc m s m' s' := by
  have hnot : Placed pc m.state -> m.state ≠ .idle := by
    intro _
    rw [hstate]
    simp
  rcases bind_eq_ok.mp h with ⟨n, _, h⟩
  cases talkEdge with
  | true =>
      injection h with h
      injection h with _ hr
      split at hr
      · cases hr
        exact MainCase.plays mic hstate (Still.refl _ _)
      · cases hr
        exact MainCase.records mic (Still.refl _ _)
  | false =>
      injection h with h
      injection h with _ hr
      split at hr
      · -- the reply has come, and the timeout may follow at once
        rcases listenTimeout_case p.now (startPlaying m (readMic mic s)).1
          (startPlaying m (readMic mic s)).2 with htimeout | hstays
        · have hstop := Still.stop_playing p.now m (readMic mic s)
          rw [← htimeout, hr] at hstop
          exact MainCase.stops p mic hpc hnot hstop
        · rw [hstays] at hr
          cases hr
          exact MainCase.plays mic hstate (Still.refl _ _)
      · rcases listenTimeout_case p.now m (readMic mic s) with htimeout | hstays
        · refine MainCase.stops p mic hpc hnot ?_
          rw [← htimeout, hr]
          exact Still.refl _ _
        · rw [hstays] at hr
          cases hr
          exact MainCase.records mic (Still.refl _ _)

theorem listenDebounce_case (hpc : pc.pass = some p)
    (hfrom : Placed pc m.state -> m.state ≠ .idle)
    (h : listenTimeout p.now (exitListening textWidth inp.low p.now m s).1
      (exitListening textWidth inp.low p.now m s).2 = (m', s')) :
    MainCase pc m s m' s' := by
  unfold exitListening at h
  cases hlow : inp.low with
  | true =>
      rw [hlow, if_pos rfl] at h
      have hflush : Still (stopListening p.now m s).1
          (stopListening p.now m { s with display := s.display.flushTyping textWidth }).1
          (stopListening p.now m s).2
          (stopListening p.now m { s with display := s.display.flushTyping textWidth }).2 :=
        Still.of_frame rfl rfl
      refine MainCase.stops p none hpc hfrom (hflush.trans ?_)
      rcases listenTimeout_case p.now
        (stopListening p.now m { s with display := s.display.flushTyping textWidth }).1
        (stopListening p.now m { s with display := s.display.flushTyping textWidth }).2 with
        htimeout | hstays
      · have hagain := Still.stop_again p.now m
          { s with display := s.display.flushTyping textWidth }
        rw [← htimeout, h] at hagain
        exact hagain
      · rw [hstays] at h
        cases h
        exact Still.refl _ _
  | false =>
      rw [hlow, if_neg (by simp)] at h
      rcases listenTimeout_case p.now m s with htimeout | hstays
      · refine MainCase.stops p none hpc hfrom ?_
        change Still (stopListening p.now m s).1 m' (stopListening p.now m s).2 s'
        rw [← htimeout, h]
        exact Still.refl _ _
      · rw [hstays] at h
        cases h
        exact MainCase.still (Still.refl _ _)

theorem volume_case {v : Int} {now : UInt32} (hloop : Still m m' s s) :
    MainCase pc m s m' (if inp.low then changeVolume v now s else s) := by
  apply MainCase.still
  split
  · exact hloop.trans (Still.changeVolume v now m' s)
  · exact hloop

theorem mainStep_case (hpc : pc ≠ .top)
    (h : mainStep textWidth rnd inp pc m s = .ok (pc', m', s')) : MainCase pc m s m' s' := by
  cases pc with
  | top => exact absurd rfl hpc
  | machine p talkEdge =>
      unfold mainStep at h
      cases hstate : m.state with
      | idle =>
          simp only [hstate, idleArm] at h
          split at h
          · cases h
            exact MainCase.listens p rfl (fun _ => by simp [hstate]) (Still.refl _ _)
          · split at h <;> cases h <;> exact MainCase.still (Still.refl _ _)
      | listening =>
          simp only [hstate] at h
          exact listeningArm_case hstate rfl h
      | playing =>
          simp only [hstate, playingArm] at h
          split at h
          · cases h
            exact MainCase.still (Still.refl _ _)
          · rcases bind_eq_ok.mp h with ⟨⟨m1, s1⟩, hquiet, h⟩
            cases h
            exact MainCase.quietCheck rfl (fun _ => by simp [hstate]) hquiet
  | idleDebounce p =>
      unfold mainStep at h
      simp only at h
      split at h
      · cases h
        refine MainCase.listens p rfl (fun hidle => ?_) (Still.refl _ _)
        have hstate : m.state = .idle := hidle
        simp [hstate]
      · cases h
        exact MainCase.still (Still.refl _ _)
  | listenDebounce p =>
      injection h with h
      injection h with _ hr
      exact listenDebounce_case rfl id hr
  | playDebounce p =>
      unfold mainStep at h
      simp only at h
      split at h
      · cases h
        exact MainCase.still (Still.of_frame rfl rfl)
      · rcases bind_eq_ok.mp h with ⟨⟨m1, s1⟩, hquiet, h⟩
        cases h
        refine MainCase.quietCheck rfl (fun hplaying => ?_) hquiet
        have hstate : m.state = .playing := hplaying
        simp [hstate]
  | releasing p =>
      unfold mainStep at h
      simp only at h
      split at h
      · cases h
        exact MainCase.still (Still.refl _ _)
      · rcases bind_eq_ok.mp h with ⟨⟨m1, s1⟩, hquiet, h⟩
        cases h
        refine MainCase.listens p rfl (fun hplaying => ?_) ?_
        · have hstate : m.state = .playing := hplaying
          simp [hstate]
        · rcases quietCheck_case hquiet with hstill | hlisten
          · exact hstill
          · have hagain := Still.listen_again p.now m s
            rw [← hlisten] at hagain
            exact hagain
  | playRelease p =>
      cases h
      exact MainCase.still (Still.refl _ _)
  | volUp p =>
      unfold mainStep at h
      simp only at h
      split at h <;> cases h <;> exact MainCase.still (Still.of_frame rfl rfl)
  | upDebounce p =>
      cases h
      exact volume_case (Still.of_frame rfl rfl)
  | volDown p =>
      unfold mainStep at h
      simp only at h
      split at h <;> cases h <;> exact MainCase.still (Still.of_frame rfl rfl)
  | downDebounce p =>
      cases h
      exact volume_case (Still.of_frame rfl rfl)
  | rest =>
      cases h
      exact MainCase.still (Still.refl _ _)

theorem MainCase.moves (h : MainCase pc m s m' s') : Moves m m' s s' := by
  cases h with
  | still h => exact h.moves
  | listens p _ _ h => exact (Moves.startListening p.now m s).trans h.moves
  | records mic h => exact (Moves.readMic mic m s).trans h.moves
  | plays mic _ h =>
      exact (Moves.readMic mic m s).trans ((Moves.startPlaying m _).trans h.moves)
  | stops p mic _ _ h =>
      exact (Moves.readMic mic m s).trans ((Moves.stopListening p.now m _).trans h.moves)

theorem mainStep_moves (hpc : pc ≠ .top)
    (h : mainStep textWidth rnd inp pc m s = .ok (pc', m', s')) : Moves m m' s s' :=
  (mainStep_case hpc h).moves

/-- The loop pumps at its top, and otherwise takes a turn. -/
theorem mainStep_cases
    (h : mainStep textWidth rnd inp pc m s = .ok (pc', m', s')) :
    (pc = .top ∧ Pump rnd inp m m' s s') ∨ (pc ≠ .top ∧ Moves m m' s s') := by
  by_cases hpc : pc = .top
  · rw [hpc] at h
    exact Or.inl ⟨hpc, passTop_pump h⟩
  · exact Or.inr ⟨hpc, mainStep_moves hpc h⟩

end MainSteps

/-!
## The first session

From boot on, with nothing pressed and nothing to play, the voice task brings the
session up and the main loop begins to listen.
-/

section FirstSession

variable {textWidth : Text -> Int} {rnd : Rat -> Rat} {a : AudioOutput}

def calm (now : UInt32) : MainInput :=
  { now := now
    tick :=
      { isDone := false
        availableBytes := 0
        pushSlice := 0
        prefillSlice := 0
        startOk := true }
    battLevel := none
    battCharging := false
    low := false
    mic := none }

structure Silent (a : AudioOutput) : Prop where
  streaming : a.streaming = false
  xfer : a.xfer = none

theorem Silent.tick (h : Silent a) (inp : AudioOutput.TickInput) :
    a.tick rnd inp = .ok (false, none, a) := by
  unfold AudioOutput.tick
  split
  · rfl
  · rw [h.xfer]
    simp [AudioOutput.startWhenReady, h.streaming]

theorem new_silent (reserve : Nat -> Bool) : Silent (AudioOutput.new reserve) :=
  ⟨rfl, rfl⟩

def waitingAt (now : UInt32) (app : AppLoop) (shared : Shared) : System :=
  { mainPc := .rest
    app := app
    voicePc := .waiting now
    shared := shared }

def listeningShared (a : AudioOutput) : Shared :=
  { Shared.boot a with
    wsUp := true
    micActive := true
    tracker := RoundTracker.new.micStart
    display := Display.new.setState .listening
    micEpoch := 1
    session := 1 }

def listeningLoop (now : UInt32) : AppLoop :=
  { AppLoop.boot with state := .listening, listenStarted := now }

/-- A step of the first session: nothing is heard from the server, and the voice task
acts before the main loop listens. -/
structure Early (a : AudioOutput) (l : Label) (s : System) : Prop where
  audio : s.shared.audio = a
  idle : s.app.state = .idle ∨ ((exists inp, l = .main inp) ∧ s.mainPc ≠ .top)
  calm : l ≠ .voice .lost ∧ l ≠ .voice (.sent false) ∧
    forall payload, l ≠ .voice (.text payload)

theorem passTop_silent (h : Silent a) (inp : MainInput) (m : AppLoop) (s : Shared)
    (haudio : s.audio = a) (hempty : s.display.typingRest = []) :
    passTop textWidth rnd inp m s =
      .ok (.machine { now := inp.now, wsUp := s.wsUp, pumped := false }
        (inp.low && !m.prevTalk),
        { m with prevTalk := inp.low },
        { s with
          display :=
            (if s.display.state ≠ shownState s.wsUp m.state then
              s.display.setState (shownState s.wsUp m.state)
            else s.display).setBattery inp.battLevel inp.battCharging }) := by
  have htick : a.tick rnd inp.tick = .ok (false, none, a) := h.tick _
  have hstill (d : Display) (hd : d.typingRest = []) :
      d.tick textWidth inp.now = .ok d := by
    unfold Display.tick
    rw [if_pos hd]
    rfl
  unfold passTop
  rw [haudio, htick, ok_bind]
  simp only
  rw [hstill _ (by split <;> exact hempty), ok_bind, ← haudio]
  rfl

theorem idleArm_auto {p : Pass} {talkEdge : Bool} {m : AppLoop} {s : Shared}
    (h : autoListen p m = true) :
    idleArm p talkEdge m s = (.volUp p, startListening p.now m s) :=
  if_pos h

def firstSession : List Label :=
  [.main (calm 0), .main (calm 0), .main (calm 0), .main (calm 0),
    .voice .connected, .voice (.sent true), .voice (.clock 0), .voice .go,
    .main (calm 6000), .main (calm 6000), .main (calm 6000), .main (calm 6000),
    .main (calm 6000)]

variable (textWidth rnd) in
theorem firstSession_run (h : Silent a) {guard : Label -> System -> Prop}
    (hguard : forall l s, Early a l s -> s.shared.micCh = [] -> guard l s) :
    Run (Guarded guard (Step textWidth rnd)) (System.boot a) firstSession
      (waitingAt 0 (listeningLoop 6000) (listeningShared a)) := by
  have hmain {now : UInt32} {s : System} (haudio : s.shared.audio = a)
      (hempty : s.shared.micCh = []) (hidle : s.app.state = .idle ∨ s.mainPc ≠ .top) :
      guard (.main (calm now)) s :=
    hguard _ _ ⟨haudio, hidle.imp id fun hpc => ⟨⟨_, rfl⟩, hpc⟩, by simp⟩ hempty
  have hvoice {inp : VoiceInput} {s : System} (haudio : s.shared.audio = a)
      (hempty : s.shared.micCh = []) (hidle : s.app.state = .idle)
      (hinp : inp ≠ .lost ∧ inp ≠ .sent false ∧ forall payload, inp ≠ .text payload) :
      guard (.voice inp) s :=
    hguard _ _ ⟨haudio, Or.inl hidle, by simpa using hinp⟩ hempty
  have hauto : autoListen { now := 6000, wsUp := true, pumped := false }
      AppLoop.boot = true := by
    decide
  -- the first pass of the main loop
  refine Run.cons ⟨hmain rfl rfl (Or.inl rfl),
    Step.main rfl (passTop_silent h (calm 0) _ _ rfl rfl)⟩ ?_
  refine Run.cons ⟨hmain rfl rfl (Or.inl rfl), Step.main rfl rfl⟩ ?_
  refine Run.cons ⟨hmain rfl rfl (Or.inl rfl), Step.main rfl rfl⟩ ?_
  refine Run.cons ⟨hmain rfl rfl (Or.inl rfl), Step.main rfl rfl⟩ ?_
  -- the session comes up
  refine Run.cons ⟨hvoice rfl rfl rfl (by simp), Step.voice rfl rfl⟩ ?_
  refine Run.cons ⟨hvoice rfl rfl rfl (by simp), Step.voice rfl rfl⟩ ?_
  refine Run.cons ⟨hvoice rfl rfl rfl (by simp), Step.voice rfl rfl⟩ ?_
  refine Run.cons ⟨hvoice rfl rfl rfl (by simp), Step.voice rfl rfl⟩ ?_
  -- the second pass begins to listen
  refine Run.cons ⟨hmain rfl rfl (Or.inl rfl), Step.main rfl rfl⟩ ?_
  refine Run.cons ⟨hmain rfl rfl (Or.inl rfl),
    Step.main rfl (passTop_silent h (calm 6000) _ _ rfl rfl)⟩ ?_
  refine Run.cons ⟨hmain rfl rfl (Or.inl rfl),
    Step.main rfl (congrArg Except.ok (idleArm_auto hauto))⟩ ?_
  refine Run.cons ⟨hmain rfl rfl (Or.inr (by simp)), Step.main rfl rfl⟩ ?_
  refine Run.cons ⟨hmain rfl rfl (Or.inr (by simp)), Step.main rfl rfl⟩ ?_
  exact Run.nil _

variable (textWidth rnd) in
theorem firstSession_listens (h : Silent a) :
    Run (Guarded (Early a) (Step textWidth rnd)) (System.boot a) firstSession
      (waitingAt 0 (listeningLoop 6000) (listeningShared a)) :=
  firstSession_run textWidth rnd h fun _ _ hearly _ => hearly

theorem withRing_buffered {cap : Nat} (hcap : cap ≠ 0) :
    (AudioOutput.withRing cap).buffered = .ok 0 := by
  simp [AudioOutput.buffered, AudioOutput.cap, AudioOutput.withRing, sub, rem, hcap]

def monospace (t : Text) : Int :=
  8 * t.length

end FirstSession

end Main
end TWA
