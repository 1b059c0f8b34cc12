import TWA.Main.Shared

/-!
# The voice task

The task connects, runs one session until its socket fails, and connects again.
The executor switches tasks only where a task waits for a timer or the socket: no
mutex is held across such a wait, so taking one never waits.  A step of the
task runs from one program point to the next.
-/

namespace TWA

open Foundation
open Foundation.Exec
open VoiceClient

namespace Main

inductive VoicePc where
  /-- The first connection is being made. -/
  | connecting
  /-- `session.start` is being sent. -/
  | sendingStart
  /-- The top of the session loop. -/
  | top
  | sendingInterrupt (now : UInt32)
  /-- The test of the uplink loop. -/
  | uplink (now : UInt32)
  | sendingMic (now : UInt32) (chunk : MicChunk)
  /-- A frame or the end of the 50 ms is awaited. -/
  | waiting (now : UInt32)
  | sendingStats (latency : UInt32)
  /-- The session is over; the pause and the attempts to connect again. -/
  | down
  deriving DecidableEq, Repr

def VoicePc.suspended : VoicePc -> Bool
  | .top | .uplink _ => false
  | _ => true

inductive VoiceInput where
  | connected
  /-- A message is sent, or sending it fails. -/
  | sent (ok : Bool)
  | clock (now : UInt32)
  | go
  /-- A text frame. -/
  | text (payload : List UInt8)
  /-- A frame of another kind, a frame that is too large, or none in time. -/
  | other
  /-- The socket fails. -/
  | lost
  deriving DecidableEq, Repr

def startSession (s : Shared) : Shared :=
  { s with
    tracker := s.tracker.reset
    asrPending := false
    session := s.session + 1 }

/-- Both flags are cleared; the tracker keeps its own. -/
def endSession (s : Shared) : Shared :=
  storeMicActive false { s with wsUp := false }

def afterSend (next : VoicePc) (ok : Bool) (s : Shared) : VoicePc × Shared :=
  if ok then (next, s) else (.down, endSession s)

def uplink (now : UInt32) (s : Shared) : VoicePc × Shared :=
  if s.micActive then
    match s.micCh with
    | [] => (.waiting now, s)
    | chunk :: rest => (.sendingMic now chunk, { s with micCh := rest })
  else
    (.waiting now, s)

section Steps

variable (textWidth : Text -> Int)

def takeInterrupt (s : Shared) : Shared :=
  let s := finalizePartial textWidth { s with intReq := false }
  { s with audio := s.audio.stopPlayback }

theorem takeInterrupt_eq (s : Shared) :
    takeInterrupt textWidth s =
      { s with
        intReq := false
        tracker := s.tracker.finalizePartial.2
        audio := s.audio.stopPlayback
        display :=
          if s.tracker.finalizePartial.1 then s.display.flushTyping textWidth
          else s.display } := by
  unfold takeInterrupt
  rw [finalizePartial_eq]

def sessionTop (now : UInt32) (s : Shared) : VoicePc × Shared :=
  if s.intReq then
    (.sendingInterrupt now, takeInterrupt textWidth s)
  else
    (.uplink now, s)

variable (rnd : Rat -> Rat)

def receiveText (now : UInt32) (payload : List UInt8) (s : Shared) :
    Exec (VoicePc × Shared) := do
  let ev <- parseServerMessage payload
  let (latency, s) <- handleServerEvent textWidth rnd now ev s
  match latency with
  | none => pure (.top, s)
  | some ms => pure (.sendingStats ms, s)

/-- One step of the task; `none` when the input is not what it waits for. -/
def voiceStep : VoicePc -> VoiceInput -> Shared ->
    Exec (Option (VoicePc × Shared))
  | .connecting, .connected, s | .down, .connected, s =>
      pure (some (.sendingStart, startSession s))
  | .sendingStart, .sent true, s => pure (some (.top, { s with wsUp := true }))
  | .sendingStart, .sent false, s => pure (some (.down, { s with wsUp := false }))
  | .top, .clock now, s => pure (some (sessionTop textWidth now s))
  | .sendingInterrupt now, .sent ok, s => pure (some (afterSend (.uplink now) ok s))
  | .uplink now, .go, s => pure (some (uplink now s))
  | .sendingMic now _, .sent ok, s => pure (some (afterSend (.uplink now) ok s))
  | .waiting now, .text payload, s => do
      let r <- receiveText textWidth rnd now payload s
      pure (some r)
  | .waiting _, .other, s => pure (some (.top, s))
  | .waiting _, .lost, s => pure (some (.down, endSession s))
  | .sendingStats _, .sent ok, s => pure (some (afterSend .top ok s))
  | _, _, _ => pure none

/-!
## What a step can do
-/

inductive VoiceCase (s : Shared) :
    VoicePc -> VoiceInput -> VoicePc -> Shared -> Prop where
  | start {pc : VoicePc} (hpc : pc = .connecting ∨ pc = .down) :
      VoiceCase s pc .connected .sendingStart (startSession s)
  | up : VoiceCase s .sendingStart (.sent true) .top { s with wsUp := true }
  | refused :
      VoiceCase s .sendingStart (.sent false) .down { s with wsUp := false }
  | interrupt {now : UInt32} (hreq : s.intReq = true) :
      VoiceCase s .top (.clock now) (.sendingInterrupt now)
        (takeInterrupt textWidth s)
  /-- The task goes on with what it shares as it was. -/
  | idle {pc pc' : VoicePc} {inp : VoiceInput}
      (hup : pc ≠ .connecting ∧ pc ≠ .sendingStart ∧ pc ≠ .down)
      (hup' : pc' ≠ .connecting ∧ pc' ≠ .sendingStart ∧ pc' ≠ .down)
      (hinp : inp = .other ∨ inp = .go ∨ inp = .sent true ∨
        exists now, inp = .clock now ∧ s.intReq = false) :
      VoiceCase s pc inp pc' s
  | take {now : UInt32} {chunk : MicChunk} {rest : List MicChunk}
      (hmic : s.micActive = true) (hch : s.micCh = chunk :: rest) :
      VoiceCase s (.uplink now) .go (.sendingMic now chunk)
        { s with micCh := rest }
  | event {now : UInt32} {payload : List UInt8} {ev : ServerEvent}
      {latency : Option UInt32} {s' : Shared}
      (hparse : parseServerMessage payload = .ok ev)
      (hhandle : handleServerEvent textWidth rnd now ev s = .ok (latency, s'))
      {pc' : VoicePc} (hpc : pc' = .top ∨ exists ms, pc' = .sendingStats ms) :
      VoiceCase s (.waiting now) (.text payload) pc' s'
  | lost {pc : VoicePc} {inp : VoiceInput}
      (hup : pc ≠ .connecting ∧ pc ≠ .sendingStart ∧ pc ≠ .down)
      (hinp : inp = .lost ∨ inp = .sent false) :
      VoiceCase s pc inp .down (endSession s)

variable {textWidth rnd}

theorem afterSend_case {s s' : Shared} {pc next pc' : VoicePc} {ok : Bool}
    (hup : pc ≠ .connecting ∧ pc ≠ .sendingStart ∧ pc ≠ .down)
    (hnext : next ≠ .connecting ∧ next ≠ .sendingStart ∧ next ≠ .down)
    (h : afterSend next ok s = (pc', s')) :
    VoiceCase textWidth rnd s pc (.sent ok) pc' s' := by
  cases ok with
  | true =>
      cases h
      exact VoiceCase.idle hup hnext (Or.inr (Or.inr (Or.inl rfl)))
  | false =>
      cases h
      exact VoiceCase.lost hup (Or.inr rfl)

theorem sessionTop_case {s s' : Shared} {now : UInt32} {pc' : VoicePc}
    (h : sessionTop textWidth now s = (pc', s')) :
    VoiceCase textWidth rnd s .top (.clock now) pc' s' := by
  unfold sessionTop at h
  by_cases hreq : s.intReq = true
  · rw [if_pos hreq] at h
    cases h
    exact VoiceCase.interrupt hreq
  · rw [if_neg hreq] at h
    cases h
    exact VoiceCase.idle (by simp) (by simp)
      (Or.inr (Or.inr (Or.inr ⟨now, rfl, by simpa using hreq⟩)))

theorem uplink_case {s s' : Shared} {now : UInt32} {pc' : VoicePc}
    (h : uplink now s = (pc', s')) :
    VoiceCase textWidth rnd s (.uplink now) .go pc' s' := by
  unfold uplink at h
  by_cases hmic : s.micActive = true
  · rw [if_pos hmic] at h
    cases hch : s.micCh with
    | nil =>
        rw [hch] at h
        cases h
        exact VoiceCase.idle (by simp) (by simp) (Or.inr (Or.inl rfl))
    | cons chunk rest =>
        rw [hch] at h
        cases h
        exact VoiceCase.take hmic hch
  · rw [if_neg hmic] at h
    cases h
    exact VoiceCase.idle (by simp) (by simp) (Or.inr (Or.inl rfl))

theorem receiveText_case {s s' : Shared} {now : UInt32} {payload : List UInt8}
    {pc' : VoicePc} (h : receiveText textWidth rnd now payload s = .ok (pc', s')) :
    VoiceCase textWidth rnd s (.waiting now) (.text payload) pc' s' := by
  rcases bind_eq_ok.mp h with ⟨ev, hparse, h⟩
  rcases bind_eq_ok.mp h with ⟨⟨latency, s1⟩, hhandle, h⟩
  cases latency with
  | none =>
      cases h
      exact VoiceCase.event hparse hhandle (Or.inl rfl)
  | some ms =>
      cases h
      exact VoiceCase.event hparse hhandle (Or.inr ⟨ms, rfl⟩)

theorem voiceStep_cases {s s' : Shared} {pc pc' : VoicePc} {inp : VoiceInput}
    (h : voiceStep textWidth rnd pc inp s = .ok (some (pc', s'))) :
    VoiceCase textWidth rnd s pc inp pc' s' := by
  unfold voiceStep at h
  split at h
  · cases h
    exact VoiceCase.start (Or.inl rfl)
  · cases h
    exact VoiceCase.start (Or.inr rfl)
  · cases h
    exact VoiceCase.up
  · cases h
    exact VoiceCase.refused
  · injection h with h
    injection h with h
    exact sessionTop_case h
  · injection h with h
    injection h with h
    exact afterSend_case (by simp) (by simp) h
  · injection h with h
    injection h with h
    exact uplink_case h
  · injection h with h
    injection h with h
    exact afterSend_case (by simp) (by simp) h
  · rcases bind_eq_ok.mp h with ⟨r, hr, h⟩
    injection h with h
    injection h with h
    rw [h] at hr
    exact receiveText_case hr
  · cases h
    exact VoiceCase.idle (by simp) (by simp) (Or.inl rfl)
  · cases h
    exact VoiceCase.lost (by simp) (Or.inl rfl)
  · injection h with h
    injection h with h
    exact afterSend_case (by simp) (by simp) h
  · cases h

end Steps

end Main
end TWA
