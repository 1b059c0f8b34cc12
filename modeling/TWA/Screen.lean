import TWA.Foundation.Pixels

/-!
# The panel

The driver writes one window at a time.  A write can fail; its window is then
left with any pixels, and nothing more is written until the panel has been
initialised again.
-/

namespace TWA

open Foundation
open Foundation.Pixels

namespace Screen

def screenW : Nat := 240

def screenH : Nat := 240

inductive Outcome where
  | written
  /-- It fails and leaves these pixels in its window. -/
  | failed (pixels : Panel)

end Screen

structure Screen where
  ok : Bool
  panel : Panel
  /-- How the coming transactions end; those after them succeed. -/
  outcomes : List Screen.Outcome
  /-- Ghost: the number of bands that have been sent. -/
  pushes : Nat
  /-- Ghost: the pixels over which the last write has failed. -/
  torn : Nat -> Nat -> Bool

namespace Screen

def isReady (s : Screen) : Bool :=
  s.ok

def initPanel (s : Screen) : Screen :=
  match s.outcomes with
  | [] => s
  | .written :: rest => { s with outcomes := rest }
  | .failed _ :: rest => { s with ok := false, outcomes := rest }

/-- The panel keeps whatever is in its memory when it is switched on. -/
def new (panel : Panel) (outcomes : List Outcome) : Screen :=
  initPanel
    { ok := true
      panel := panel
      outcomes := outcomes
      pushes := 0
      torn := fun _ _ => false }

def tryRecover (s : Screen) : Screen :=
  initPanel { s with ok := true }

def transact (win : Window) (pixels : Panel) (s : Screen) : Bool × Screen :=
  match s.outcomes with
  | .failed garbage :: rest =>
      (false,
        { ok := false
          panel := paste win garbage s.panel
          outcomes := rest
          pushes := s.pushes + 1
          torn := fun i j => s.torn i j || decide (win.Holds i j) })
  | outcomes =>
      (true,
        { ok := s.ok
          panel := paste win pixels s.panel
          outcomes := outcomes.tail
          pushes := s.pushes + 1
          torn := fun i j => s.torn i j && !decide (win.Holds i j) })

/-- The answer is whether the band has been written. -/
def pushBand (win : Window) (bytes : List UInt8) (s : Screen) : Bool × Screen :=
  if !s.ok then
    (false, s)
  else if bytes.length ≠ win.w * win.h * 2 then
    (false, s)
  else
    transact win (bandPixels win bytes) s

def fillArea (win : Window) (color : UInt16) (s : Screen) : Bool × Screen :=
  if !s.ok then
    (false, s)
  else if win.w > screenW then
    (false, s)
  else
    transact win (fun _ _ => color) s

/-- The diagnostic picture shown at boot: blocks, stripes, shades of grey, two halves. -/
def testBars : List (Window × UInt16) :=
  ((List.range 4).zip [(0xFFFF : UInt16), 0xF800, 0x07E0, 0x001F]).map
      (fun (i, color) => (Window.mk (i * 60) 0 60 60, color)) ++
    (List.range 8).map
      (fun i => (Window.mk (i * 30) 60 30 60, if i % 2 = 0 then (0xF800 : UInt16) else 0x07E0)) ++
    (List.range 16).map
      (fun i =>
        let v := UInt16.ofNat (i * 2)
        (Window.mk (i * 15) 120 15 60, (v <<< 11) ||| (v <<< 6) ||| v)) ++
    [(⟨0, 180, 120, 60⟩, 0x07FF), (⟨120, 180, 120, 60⟩, 0xFFE0)]

def selfTestBars (s : Screen) : Screen :=
  if !s.ok then
    s
  else
    testBars.foldl (fun s (win, color) => (s.fillArea win color).2) s

end Screen
end TWA
