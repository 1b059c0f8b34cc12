import TWA.Config
import TWA.Foundation.Utf8

/-!
# The subtitle model

Subtitle text moves through three buffers: `typingRest` holds what has arrived
and is not revealed yet, `curLine` is the row being typed, and `history` holds
the finished rows.  The pixel width of a text comes from the font and is a
parameter.
-/

namespace TWA

open Foundation
open Foundation.Exec

namespace Display

def maxHistoryLines : Nat := 80

def subW : Int := 232

def userColor : UInt16 := 0x07E0

def aiColor : UInt16 := 0x07FF

def userLabel : Text := ['我', ':']

inductive DisplayState where
  | idle
  | listening
  | playing
  | offline
  deriving DecidableEq, Repr

namespace DisplayState

def asStr : DisplayState -> Text
  | idle => Text.lit "IDLE"
  | listening => Text.lit "LISTEN"
  | playing => Text.lit "PLAY"
  | offline => Text.lit "OFFLINE"

def color : DisplayState -> UInt16
  | idle => 0xFFFF
  | listening => 0x67F4
  | playing => 0xFF0C
  | offline => 0xF98C

end DisplayState

structure SubtitleLine where
  text : Text
  color : UInt16
  deriving DecidableEq, Repr

end Display

structure Display where
  state : Display.DisplayState
  volume : Int
  history : List Display.SubtitleLine
  typingRest : Text
  curLine : Text
  curColor : UInt16
  streamMode : Bool
  streamQueued : Text
  lastTypeMs : UInt32
  volumeUntilMs : UInt32
  battLevel : Option UInt8
  battCharging : Bool
  /-- Ghost field: every row ever pushed to `history`, before it is trimmed. -/
  pushed : List Display.SubtitleLine
  deriving DecidableEq, Repr

namespace Display

def isTyping (d : Display) : Bool :=
  !d.typingRest.isEmpty || !d.curLine.isEmpty

def new : Display :=
  { state := .idle
    volume := 80
    history := []
    typingRest := []
    curLine := []
    curColor := aiColor
    streamMode := false
    streamQueued := []
    lastTypeMs := 0
    volumeUntilMs := 0
    battLevel := none
    battCharging := false
    pushed := [] }

/-!
## Top bar
-/

def setState (state : DisplayState) (d : Display) : Display :=
  { d with state := state }

/-- An unchanged volume does not show the readout again. -/
def setVolume (volume : Int) (nowMs : UInt32) (d : Display) : Display :=
  let v := max 0 (min 100 volume)
  if v = d.volume then d
  else { d with volume := v, volumeUntilMs := nowMs + 1500 }

def setBattery (level : Option UInt8) (charging : Bool) (d : Display) :
    Display :=
  { d with battLevel := level, battCharging := charging }

/-!
## Rows

Finished text is wrapped character by character; a newline ends the row, and the
last row is kept even when it is empty.
-/

section Rows

variable (textWidth : Text -> Int)

def wrapLoop : Text -> List Text -> Text -> List Text
  | [], out, cur => out ++ [cur]
  | ch :: rest, out, cur =>
      if ch = '\n' then
        wrapLoop rest (out ++ [cur]) []
      else if textWidth cur + textWidth [ch] > subW ∧ cur ≠ [] then
        wrapLoop rest (out ++ [cur]) [ch]
      else
        wrapLoop rest out (cur ++ [ch])

def wrapToLines (text : Text) : List Text :=
  wrapLoop textWidth text [] []

def displayRows (text : Text) (color : UInt16) : List SubtitleLine :=
  (wrapToLines textWidth text).map fun seg =>
    { text := if seg = [] then [' '] else seg, color := color }

def trimHistory (rows : List SubtitleLine) : List SubtitleLine :=
  rows.drop (rows.length - maxHistoryLines)

def pushLine (text : Text) (color : UInt16) (d : Display) : Display :=
  { d with
    history := trimHistory (d.history ++ displayRows textWidth text color)
    pushed := d.pushed ++ displayRows textWidth text color }

/-!
## Subtitle calls
-/

def flushTyping (d : Display) : Display :=
  let d := { d with streamMode := false, streamQueued := [] }
  if d.typingRest = [] ∧ d.curLine = [] then
    d
  else
    let rest := d.curLine ++ d.typingRest
    pushLine textWidth rest d.curColor { d with curLine := [], typingRest := [] }

def addUserLine (text : Text) (d : Display) : Display :=
  pushLine textWidth (userLabel ++ text) userColor (flushTyping textWidth d)

def beginReplyTypewriter (text : Text) (d : Display) : Display :=
  { flushTyping textWidth d with
    typingRest := text
    curLine := []
    curColor := aiColor
    streamMode := false
    streamQueued := [] }

def beginReplyStream (d : Display) : Display :=
  { flushTyping textWidth d with
    typingRest := []
    curLine := []
    curColor := aiColor
    streamQueued := []
    streamMode := true }

def appendReplyDelta (delta : Text) (d : Display) : Display :=
  if delta = [] then
    d
  else
    let d := if !d.streamMode then beginReplyStream textWidth d else d
    { d with
      typingRest := d.typingRest ++ delta
      streamQueued := d.streamQueued ++ delta }

/-- Reconcile with the full reply: only what the deltas missed is appended, and
a reply that does not extend them is typed again from its start. -/
def setReplyFullText (full : Text) (d : Display) : Display :=
  if d.streamMode ∧ d.streamQueued <+: full then
    let d :=
      if full.length > d.streamQueued.length then
        { d with typingRest := d.typingRest ++ full.drop d.streamQueued.length }
      else
        d
    { d with streamMode := false, streamQueued := [] }
  else
    beginReplyTypewriter textWidth full d

end Rows

/-!
## The typewriter tick

One tick reveals one unit: a run of spaces followed by an ASCII word and its
trailing spaces, or by a single other character.  The unit is found by scanning
bytes, so the cut is checked to lie between characters.
-/

def isSpace (b : UInt8) : Bool :=
  b == 0x20

def isAsciiGraphic (b : UInt8) : Bool :=
  0x21 ≤ b && b ≤ 0x7E

/-- Byte length of the unit that the next tick reveals. -/
def unitLength (typingRest : Text) : Exec Nat := do
  let bytes := Utf8.encode typingRest
  let n := bytes.length
  let i <- advanceWhile isSpace bytes 0
  if i < n then
    let b <- index bytes i
    if isAsciiGraphic b then
      let i <- advanceWhile isAsciiGraphic bytes i
      advanceWhile isSpace bytes i
    else
      let (_, tail) <- Utf8.splitAt typingRest i
      match tail with
      | [] => .error .unwrapNone
      | ch :: _ => pure (i + ch.utf8Size)
  else
    pure i

def tick (textWidth : Text -> Int) (nowMs : UInt32) (d : Display) :
    Exec Display :=
  if d.typingRest = [] then
    pure d
  else if nowMs - d.lastTypeMs < Config.typeIntervalMs then
    pure d
  else do
    let d := { d with lastTypeMs := nowMs }
    let n := (Utf8.encode d.typingRest).length
    let i <- unitLength d.typingRest
    let (unit, rest) <- Utf8.splitAt d.typingRest (min i n)
    let d := { d with typingRest := rest }
    if Text.trim unit = ['\n'] then
      pure (pushLine textWidth d.curLine d.curColor { d with curLine := [] })
    else
      let d :=
        if textWidth d.curLine + textWidth unit > subW ∧ d.curLine ≠ [] then
          pushLine textWidth d.curLine d.curColor { d with curLine := [] }
        else
          d
      pure { d with curLine := d.curLine ++ unit }

end Display
end TWA
