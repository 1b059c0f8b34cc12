import Mathlib.Data.List.FinRange
import Mathlib.Logic.Function.Basic
import TWA.Foundation.Bytes
import TWA.Ntp.Model
import TWA.Render.Raster

/-!
# The renderer

The top bar and twelve subtitle rows are redrawn only where their content has
changed.  What was drawn last is remembered: a key that stands for the content
of the bar, and a snapshot of each row.  A row that only got longer is redrawn
from the end of the old text on.  One tick sends at most two bands.
-/

namespace TWA

open Foundation
open Foundation.Pixels
open Display (DisplayState SubtitleLine)
open Screen (screenW)

namespace Render

def lineH : Nat := 18

def barH : Nat := 22

def subY : Nat := 24

def visible : Nat := (240 - subY) / lineH

def black : UInt16 := 0x0000

def caretColor : UInt16 := 0x47F4

def barBg : UInt16 := 0x1202

def maxPush : Nat := 2

/-- How long the diagnostic bars stay after boot. -/
def barHoldMs : UInt32 := 800

def recoverIntervalMs : UInt32 := 2000

def extFastPath : Bool := true

structure Slot where
  txt : Text
  col : UInt16
  caret : Bool
  deriving DecidableEq, Repr

def Slot.default : Slot :=
  { txt := []
    col := 0
    caret := false }

end Render

open Render

structure Renderer where
  drawn : Fin visible -> Slot
  barKey : Nat
  /-- Scratch space for the band that is sent. -/
  band : List UInt8
  /-- Start of the time for which the diagnostic bars stay; zero before it starts. -/
  startMs : UInt32
  /-- The pixel row that is cleared next. -/
  clearRow : Nat
  taken : Bool
  recoverAt : UInt32

def Renderer.new : Renderer :=
  { drawn := fun _ => Slot.default
    barKey := UInt64.size - 1
    band := List.replicate (screenW * barH * 2) 0
    startMs := 0
    clearRow := 0
    taken := false
    recoverAt := 0 }

structure Ui where
  renderer : Renderer
  screen : Screen

namespace Render

/-! ## What the screen is to show -/

/-- The row that belongs into a slot; `none` if the slot is to be empty. -/
def desiredRow (disp : Display) (slot : Nat) : Option Slot :=
  let total := disp.history.length + (if disp.isTyping then 1 else 0)
  let listen := disp.state == .listening
  if total = 0 then
    if listen && slot == 0 then
      some { txt := [], col := black, caret := true }
    else
      none
  else
    let first := total - visible
    let abs := first + slot
    if abs ≥ total then
      none
    else
      let caret := listen && abs == total - 1
      if disp.isTyping && abs == total - 1 then
        some { txt := disp.curLine, col := disp.curColor, caret := caret }
      else
        -- In the remaining cases `abs` is an index of the history.
        disp.history[abs]?.map fun row => { txt := row.text, col := row.color, caret := caret }

def showVolume (disp : Display) (nowMs : UInt32) : Bool :=
  let until' := disp.volumeUntilMs
  until' != 0 && nowMs - until' < 0xFFFFFFFF / 2

def formatVol (v : Int) : Text :=
  Text.lit "VOL " ++ Text.lit (toString v) ++ ['%']

def battText (level : Option UInt8) : Text :=
  match level with
  | some v => Text.lit (toString v.toNat) ++ ['%']
  | none => Text.lit "--%"

/-- Everything that changes the pixels of the bar is packed into one number: state, volume
readout, volume, minute of the day, clock not set, battery, charging. -/
def barKey (disp : Display) (clock : Ntp.Clock) (nowMs : UInt32) : Nat :=
  let state :=
    match disp.state with
    | .idle => 0
    | .listening => 1
    | .playing => 2
    | .offline => 3
  let volShown := showVolume disp nowMs
  let k := state ||| (if volShown then 1 <<< 3 else 0) |||
    ((disp.volume % 128).toNat <<< 4)
  if volShown then
    k
  else
    let k :=
      match Ntp.clockHm nowMs clock with
      | some (h, m) => k ||| (((h * 60 + m) % 2048) <<< 11)
      | none => k ||| (1 <<< 22)
    let batt :=
      match disp.battLevel with
      | some v => v.toNat
      | none => 127
    k ||| ((batt <<< 24) ||| ((if disp.battCharging then 1 else 0) <<< 31))

/-! ## Bands -/

def rowBand (font : Font) (slot : Slot) (sx0 : Int) (w : Nat) (band : List UInt8) :
    List UInt8 :=
  let band := fillColor black band
  let shift := textX - sx0
  let band := raster font w slot.txt slot.col shift band
  if slot.caret then
    raster font w ['_'] caretColor (font.textWidth slot.txt + shift) band
  else
    band

def lightning (bx : Int) (band : List UInt8) : List UInt8 :=
  let band := drawLine screenW (bx + 2) 3 bx 8 0xFFE0 band
  let band := drawLine screenW bx 8 (bx + 3) 8 0xFFE0 band
  drawLine screenW (bx + 3) 8 (bx + 1) 13 0xFFE0 band

def barBand (font : Font) (disp : Display) (clock : Ntp.Clock) (nowMs : UInt32)
    (band : List UInt8) : List UInt8 :=
  let band := fillColor barBg band
  let band := raster font screenW disp.state.asStr disp.state.color 6 band
  if showVolume disp nowMs then
    raster font screenW (formatVol disp.volume) 0x07FF 176 band
  else
    let band := raster font screenW (Ntp.clockText nowMs clock) 0xFFFF 150 band
    let wc := if disp.state != .offline then 0x07FF else 0x630C
    let band := fillRect screenW 190 10 3 5 wc band
    let band := fillRect screenW 195 7 3 8 wc band
    let band := fillRect screenW 200 4 3 11 wc band
    let bt := battText disp.battLevel
    let bw := font.textWidth bt
    let band := raster font screenW bt 0xFFFF (237 - bw) band
    if disp.battCharging then lightning (237 - bw - 8) band else band

/-! ## Painting -/

/-- The part of a row that is painted: from column `sx0` up to column `sx1`. -/
structure Painting where
  slot : Slot
  sx0 : Int
  sx1 : Int
  deriving DecidableEq, Repr

def rowTop (slot : Fin visible) : Nat :=
  subY + slot * lineH

section Painting

variable (font : Font)

def canExtend (d wanted : Slot) : Bool :=
  let oldW := font.textWidth d.txt
  let newW := font.textWidth wanted.txt
  extFastPath && !wanted.caret && !d.caret && d.col == wanted.col && !d.txt.isEmpty &&
    d.txt.isPrefixOf wanted.txt && newW > oldW && newW ≤ Display.subW

def paintingOf (wanted : Option Slot) (d : Slot) : Option Painting :=
  match wanted with
  | none =>
      if d.txt = [] ∧ d.caret = false then
        none
      else
        some { slot := Slot.default, sx0 := 0, sx1 := screenW }
  | some wanted =>
      if d = wanted then
        none
      else if canExtend font d wanted then
        some
          { slot := wanted
            sx0 := textX + font.textWidth d.txt
            sx1 := textX + font.textWidth wanted.txt }
      else
        some { slot := wanted, sx0 := 0, sx1 := screenW }

def paintRow (slot : Fin visible) (p : Painting) (ui : Ui) : Bool × Ui :=
  let sx0 := max p.sx0 0
  let sx1 := min p.sx1 screenW
  let w := (max (sx1 - sx0) 1).toNat
  let band := rowBand font p.slot sx0 w (ui.renderer.band.take (w * lineH * 2))
  let (written, screen) :=
    ui.screen.pushBand ⟨sx0.toNat, rowTop slot, w, lineH⟩ band
  (written,
    { renderer := { ui.renderer with band := splice ui.renderer.band 0 band }
      screen := screen })

/-- The key is updated only if the bar has been written. -/
def pushBar (disp : Display) (clock : Ntp.Clock) (nowMs : UInt32) (ui : Ui) :
    Bool × Ui :=
  let band := barBand font disp clock nowMs (ui.renderer.band.take (screenW * barH * 2))
  let (written, screen) := ui.screen.pushBand ⟨0, 0, screenW, barH⟩ band
  let renderer := { ui.renderer with band := splice ui.renderer.band 0 band }
  if written then
    (true,
      { renderer := { renderer with barKey := barKey disp clock nowMs }
        screen := screen })
  else
    (false, { renderer := renderer, screen := screen })

def drawRows (disp : Display) : List (Fin visible) -> Nat -> Ui -> Ui
  | [], _, ui => ui
  | slot :: rest, pushed, ui =>
      if pushed ≥ maxPush then
        ui
      else
        match paintingOf font (desiredRow disp slot) (ui.renderer.drawn slot) with
        | none => drawRows disp rest pushed ui
        | some p =>
            match paintRow font slot p ui with
            | (false, ui) => ui
            | (true, ui) =>
                let drawn := Function.update ui.renderer.drawn slot p.slot
                drawRows disp rest (pushed + 1)
                  { ui with renderer := { ui.renderer with drawn := drawn } }

def drawFrame (disp : Display) (clock : Ntp.Clock) (nowMs : UInt32) (ui : Ui) : Ui :=
  if ui.renderer.barKey != barKey disp clock nowMs then
    match pushBar font disp clock nowMs ui with
    | (false, ui) => ui
    | (true, ui) => drawRows font disp (List.finRange visible) 1 ui
  else
    drawRows font disp (List.finRange visible) 0 ui

/-- Clear the next pixel rows; the screen is taken over after the last ones. -/
def clearNext (ui : Ui) : Ui :=
  let r := ui.renderer
  let h := min lineH (240 - r.clearRow)
  let n := screenW * h * 2
  let band := List.replicate n 0
  let (_, screen) := ui.screen.pushBand ⟨0, r.clearRow, screenW, h⟩ band
  let r := { r with band := splice r.band 0 band, clearRow := r.clearRow + h }
  if r.clearRow ≥ 240 then
    { renderer :=
        { r with
          drawn := fun _ => Slot.default
          taken := true
          barKey := UInt64.size - 1 }
      screen := screen }
  else
    { renderer := r, screen := screen }

def tick (disp : Display) (clock : Ntp.Clock) (nowMs : UInt32) (ui : Ui) : Ui :=
  let r := ui.renderer
  if !ui.screen.isReady then
    if nowMs - r.recoverAt ≥ recoverIntervalMs then
      { renderer := { r with recoverAt := nowMs }, screen := ui.screen.tryRecover }
    else
      ui
  else
    let r := if r.startMs = 0 then { r with startMs := nowMs } else r
    let ui := { ui with renderer := r }
    if nowMs - r.startMs < barHoldMs then
      ui
    else if !r.taken then
      clearNext ui
    else
      drawFrame font disp clock nowMs ui

end Painting

def boot (panel : Panel) (outcomes : List Screen.Outcome) : Ui :=
  { renderer := Renderer.new
    screen := (Screen.new panel outcomes).selfTestBars }

end Render
end TWA
