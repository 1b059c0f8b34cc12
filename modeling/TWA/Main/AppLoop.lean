import TWA.AudioOutput.Tone
import TWA.Main.Shared

/-!
# The main loop

Each pass pumps the audio, advances the subtitles and then runs the three-state
machine and the volume keys.  A pass may wait inside to debounce a button, and it
sleeps at its end unless the pump has started a transfer.  A step of the loop runs
from one program point to the next.
-/

namespace TWA

open Foundation
open Foundation.Exec

namespace Main

/-- The variables of the loop that outlive a pass. -/
structure AppLoop where
  state : AppState
  cooldownUntil : UInt32
  listenStarted : UInt32
  quietSince : Option UInt32
  prevTalk : Bool
  prevUp : Bool
  prevDn : Bool
  deriving DecidableEq, Repr

def AppLoop.boot : AppLoop :=
  { state := .idle
    cooldownUntil := 0
    listenStarted := 0
    quietSince := none
    prevTalk := false
    prevUp := false
    prevDn := false }

structure Pass where
  now : UInt32
  wsUp : Bool
  pumped : Bool
  deriving DecidableEq, Repr

inductive MainPc where
  | top
  /-- The state machine, with the edge of the talk button. -/
  | machine (p : Pass) (talkEdge : Bool)
  | idleDebounce (p : Pass)
  | listenDebounce (p : Pass)
  | playDebounce (p : Pass)
  /-- The test of the loop that waits for the release of the button. -/
  | releasing (p : Pass)
  | playRelease (p : Pass)
  | volUp (p : Pass)
  | upDebounce (p : Pass)
  | volDown (p : Pass)
  | downDebounce (p : Pass)
  | rest
  deriving DecidableEq, Repr

def MainPc.suspended : MainPc -> Bool
  | .top | .machine _ _ | .releasing _ | .volUp _ | .volDown _ => false
  | _ => true

structure MainInput where
  /-- The clock at the top of a pass. -/
  now : UInt32
  tick : AudioOutput.TickInput
  battLevel : Option UInt8
  battCharging : Bool
  /-- The button that the step reads is pressed. -/
  low : Bool
  /-- The samples read from the microphone, if it is its turn and there are any. -/
  mic : Option (List UInt8)
  deriving DecidableEq, Repr

/-!
## Parts of a pass
-/

def shownState (wsUp : Bool) (state : AppState) : Display.DisplayState :=
  if !wsUp then .offline
  else
    match state with
    | .idle => .idle
    | .listening => .listening
    | .playing => .playing

def startListening (now : UInt32) (m : AppLoop) (s : Shared) :
    AppLoop × Shared :=
  let s := trackerMicStart (storeMicActive true s)
  ({ m with state := .listening, listenStarted := now },
    { s with asrPending := false, display := s.display.setState .listening })

/-- The reply is audible: the microphone is paused against the echo. -/
def startPlaying (m : AppLoop) (s : Shared) : AppLoop × Shared :=
  let s := trackerMicPause (storeMicActive false s)
  ({ m with state := .playing, quietSince := none },
    { s with display := s.display.setState .playing })

/-- Listening ends, and is not resumed before the cooldown is over. -/
def stopListening (now : UInt32) (m : AppLoop) (s : Shared) : AppLoop × Shared :=
  let s := trackerMicPause (storeMicActive false s)
  ({ m with state := .idle, cooldownUntil := now + Config.listenCooldownMs },
    { s with display := s.display.setState .idle })

/-- The non-blocking send to the voice task; a full channel drops the block. -/
def readMic (mic : Option (List UInt8)) (s : Shared) : Shared :=
  match mic with
  | none => s
  | some data =>
      if s.micActive && decide (s.micCh.length < micChCapacity) then
        { s with
          micCh := s.micCh ++
            [{ data := data, micEpoch := s.micEpoch, session := s.session }] }
      else
        s

def listenTimeout (now : UInt32) (m : AppLoop) (s : Shared) : AppLoop × Shared :=
  let sinceVad := if s.lastVadMs = 0 then 0xFFFFFFFF else now - s.lastVadMs
  if sinceVad > Config.listenTimeoutMs ∧
      now - m.listenStarted > Config.listenTimeoutMs then
    stopListening now m s
  else
    (m, s)

def quietCheck (now : UInt32) (m : AppLoop) (s : Shared) :
    Exec (AppLoop × Shared) := do
  let active <- s.audio.isActive
  if !active then
    match m.quietSince with
    | none => pure ({ m with quietSince := some now }, s)
    | some t0 =>
        if now - t0 > Config.resumeListenSilenceMs then
          pure (startListening now m s)
        else
          pure (m, s)
  else
    pure ({ m with quietSince := none }, s)

/-- `play_tone` gives its handles back when the tone is over, and does nothing
while a transfer has them. -/
def afterTone (a : AudioOutput) : AudioOutput :=
  if a.tx = none ∨ a.stream = none then a else a.reclaim

/-- What `play_tone` leaves behind, whatever the hardware does in its rounds. -/
theorem playTone_afterTone (rnd sinf : Rat -> Rat) (hw : Nat -> AudioOutput.ToneRound)
    (freqHz durationMs : UInt32) (a : AudioOutput) :
    exists handed, AudioOutput.playTone rnd sinf hw freqHz durationMs a =
      .ok (handed, afterTone a) :=
  AudioOutput.playTone_ok rnd sinf hw freqHz durationMs a

def changeVolume (v : Int) (now : UInt32) (s : Shared) : Shared :=
  { s with
    audio := afterTone (s.audio.setVolume v)
    display := s.display.setVolume v now }

/-- Resumption on its own is allowed from some time after boot on, and after a
cooldown. -/
def autoListen (p : Pass) (m : AppLoop) : Bool :=
  Config.autoListenOnBoot && p.wsUp && decide (p.now > 5000) &&
    decide (p.now - m.cooldownUntil < 0xFFFFFFFF / 2)

section Steps

variable (textWidth : Text -> Int) (rnd : Rat -> Rat)

def passTop (inp : MainInput) (m : AppLoop) (s : Shared) :
    Exec (MainPc × AppLoop × Shared) := do
  let (pumped, _, audio) <- s.audio.tick rnd inp.tick
  let shown := shownState s.wsUp m.state
  let display := if s.display.state ≠ shown then s.display.setState shown else s.display
  let display <- display.tick textWidth inp.now
  let display := display.setBattery inp.battLevel inp.battCharging
  pure
    (.machine { now := inp.now, wsUp := s.wsUp, pumped := pumped }
      (inp.low && !m.prevTalk),
      { m with prevTalk := inp.low }, { s with audio := audio, display := display })

def idleArm (p : Pass) (talkEdge : Bool) (m : AppLoop) (s : Shared) :
    MainPc × AppLoop × Shared :=
  if autoListen p m then
    (.volUp p, startListening p.now m s)
  else if talkEdge then
    (.idleDebounce p, m, s)
  else
    (.volUp p, m, s)

def listeningArm (mic : Option (List UInt8)) (p : Pass) (talkEdge : Bool)
    (m : AppLoop) (s : Shared) : Exec (MainPc × AppLoop × Shared) := do
  let s := readMic mic s
  let n <- s.audio.buffered
  let r := if n > 0 then startPlaying m s else (m, s)
  if talkEdge then
    pure (.listenDebounce p, r)
  else
    pure (.volUp p, listenTimeout p.now r.1 r.2)

def playingArm (p : Pass) (talkEdge : Bool) (m : AppLoop) (s : Shared) :
    Exec (MainPc × AppLoop × Shared) :=
  if talkEdge then
    pure (.playDebounce p, m, s)
  else do
    let r <- quietCheck p.now m s
    pure (.volUp p, r)

/-- Listening is left by hand if the button is still pressed after the debounce. -/
def exitListening (low : Bool) (now : UInt32) (m : AppLoop) (s : Shared) :
    AppLoop × Shared :=
  if low then
    stopListening now m { s with display := s.display.flushTyping textWidth }
  else
    (m, s)

/-- The end of a pass: after starting a transfer the loop does not sleep. -/
def passEnd (p : Pass) : MainPc :=
  if p.pumped then .top else .rest

def mainStep (inp : MainInput) (pc : MainPc) (m : AppLoop) (s : Shared) :
    Exec (MainPc × AppLoop × Shared) :=
  match pc with
  | .top => passTop textWidth rnd inp m s
  | .machine p talkEdge =>
      match m.state with
      | .idle => pure (idleArm p talkEdge m s)
      | .listening => listeningArm inp.mic p talkEdge m s
      | .playing => playingArm p talkEdge m s
  | .idleDebounce p =>
      if inp.low && p.wsUp then
        pure (.volUp p, startListening p.now m s)
      else
        pure (.volUp p, m, s)
  | .listenDebounce p =>
      let r := exitListening textWidth inp.low p.now m s
      pure (.volUp p, listenTimeout p.now r.1 r.2)
  | .playDebounce p =>
      if inp.low then
        pure (.releasing p, m,
          { s with intReq := true, display := s.display.flushTyping textWidth })
      else do
        let r <- quietCheck p.now m s
        pure (.volUp p, r)
  | .releasing p =>
      if inp.low then
        pure (.playRelease p, m, s)
      else do
        let r := startListening p.now m s
        let r <- quietCheck p.now r.1 r.2
        pure (.volUp p, r)
  | .playRelease p => pure (.releasing p, m, s)
  | .volUp p =>
      if inp.low && !m.prevUp then
        pure (.upDebounce p, m, s)
      else
        pure (.volDown p, { m with prevUp := inp.low }, s)
  | .upDebounce p =>
      pure (.volDown p, { m with prevUp := true },
        if inp.low then changeVolume (min (s.audio.volume + 10) 100) p.now s else s)
  | .volDown p =>
      if inp.low && !m.prevDn then
        pure (.downDebounce p, m, s)
      else
        pure (passEnd p, { m with prevDn := inp.low }, s)
  | .downDebounce p =>
      pure (passEnd p, { m with prevDn := true },
        if inp.low then changeVolume (max (s.audio.volume - 10) 0) p.now s else s)
  | .rest => pure (.top, m, s)

end Steps

end Main
end TWA
