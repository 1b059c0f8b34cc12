import TWA.Foundation.Pixels

/-!
# The controller of a panel

A byte on the bus is a command while the DC line is low, and a parameter or a part of a
pixel while it is high; nothing is heard while CS is high.  Two commands set the columns
and the rows of the window.  After a third one pixels are written into it, row by row.
-/

namespace TWA
namespace Foundation
namespace St7789

open Pixels

inductive Event where
  | cs (high : Bool)
  | dc (high : Bool)
  | byte (value : UInt8)
  deriving DecidableEq, Repr

def caset : UInt8 := 0x2A

def raset : UInt8 := 0x2B

def ramwr : UInt8 := 0x2C

structure Controller where
  csHigh : Bool
  dcHigh : Bool
  command : UInt8
  /-- What came after the command, unless it was pixels. -/
  params : List UInt8
  x0 : Nat
  x1 : Nat
  y0 : Nat
  y1 : Nat
  /-- Where the next pixel goes. -/
  col : Nat
  row : Nat
  /-- The first byte of a pixel, until the second one comes. -/
  high : Option UInt8
  memory : Panel

namespace Controller

def word (hi lo : UInt8) : Nat :=
  hi.toNat * 256 + lo.toNat

def start (c : UInt8) (p : Controller) : Controller :=
  let p := { p with command := c, params := [], high := none }
  if c = ramwr then { p with col := p.x0, row := p.y0 } else p

def parameter (b : UInt8) (p : Controller) : Controller :=
  let p := { p with params := p.params ++ [b] }
  match p.params with
  | [s1, s0, e1, e0] =>
      if p.command = caset then
        { p with x0 := word s1 s0, x1 := word e1 e0 }
      else if p.command = raset then
        { p with y0 := word s1 s0, y1 := word e1 e0 }
      else
        p
  | _ => p

/-- The next pixel of the row, the next row, or the first pixel again. -/
def advance (p : Controller) : Controller :=
  if p.col < p.x1 then
    { p with col := p.col + 1 }
  else if p.row < p.y1 then
    { p with col := p.x0, row := p.row + 1 }
  else
    { p with col := p.x0, row := p.y0 }

def pixel (b : UInt8) (p : Controller) : Controller :=
  match p.high with
  | none => { p with high := some b }
  | some hi =>
      advance
        { p with
          high := none
          memory := fun i j =>
            if i = p.col ∧ j = p.row then colorOf hi b else p.memory i j }

def step (p : Controller) : Event -> Controller
  | .cs high => { p with csHigh := high }
  | .dc high => { p with dcHigh := high }
  | .byte b =>
      if p.csHigh then
        p
      else if !p.dcHigh then
        start b p
      else if p.command = ramwr then
        pixel b p
      else
        parameter b p

def run (p : Controller) (events : List Event) : Controller :=
  events.foldl step p

end Controller

open Controller

section Windows

variable {p : Controller}

theorem run_append (p : Controller) (events events' : List Event) :
    run p (events ++ events') = run (run p events) events' :=
  List.foldl_append

theorem run_command (h : p.csHigh = false) (c : UInt8) :
    run p [.dc false, .byte c] = start c { p with dcHigh := false } := by
  unfold run
  simp [step, h]

theorem run_caset (h : p.csHigh = false) (s1 s0 e1 e0 : UInt8) :
    run p ([.dc false, .byte caset] ++ .dc true :: [s1, s0, e1, e0].map Event.byte) =
      { p with
        dcHigh := true
        command := caset
        params := [s1, s0, e1, e0]
        high := none
        x0 := word s1 s0
        x1 := word e1 e0 } := by
  have hother : caset ≠ ramwr := by decide
  rw [run_append, run_command h]
  simp [run, step, start, parameter, hother, h]

theorem run_raset (h : p.csHigh = false) (s1 s0 e1 e0 : UInt8) :
    run p ([.dc false, .byte raset] ++ .dc true :: [s1, s0, e1, e0].map Event.byte) =
      { p with
        dcHigh := true
        command := raset
        params := [s1, s0, e1, e0]
        high := none
        y0 := word s1 s0
        y1 := word e1 e0 } := by
  have hother : raset ≠ ramwr := by decide
  have hrows : raset ≠ caset := by decide
  rw [run_append, run_command h]
  simp [run, step, start, parameter, hother, hrows, h]

theorem run_ramwr (h : p.csHigh = false) :
    run p [.dc false, .byte ramwr, .dc true] =
      { p with
        dcHigh := true
        command := ramwr
        params := []
        high := none
        col := p.x0
        row := p.y0 } := by
  have hsplit : [Event.dc false, .byte ramwr, .dc true] =
      [.dc false, .byte ramwr] ++ [.dc true] := rfl
  rw [hsplit, run_append, run_command h]
  simp [run, step, start]

end Windows

/-! ## Pixels -/

def pasteFirst (win : Window) (band : List UInt8) (n : Nat) (panel : Panel) : Panel :=
  fun i j =>
    if win.Holds i j ∧ place win i j < n then bandPixels win band i j else panel i j

/-- The first `n` pixels of a band have been written into a window of the panel `before`. -/
structure Streaming (win : Window) (band : List UInt8) (before : Panel) (n : Nat)
    (p : Controller) : Prop where
  selected : p.csHigh = false
  data : p.dcHigh = true
  writing : p.command = ramwr
  x0_eq : p.x0 = win.x
  x1_eq : p.x1 = win.x + win.w - 1
  y0_eq : p.y0 = win.y
  y1_eq : p.y1 = win.y + win.h - 1
  high_eq : p.high = none
  /-- The place of the next pixel, unless there is none. -/
  cursor : n < win.w * win.h -> p.col = win.x + n % win.w ∧ p.row = win.y + n / win.w
  memory_eq : p.memory = pasteFirst win band n before

section Pixels

variable {win : Window} {band : List UInt8} {before : Panel} {n i j : Nat} {p : Controller}

theorem pasteFirst_zero (win : Window) (band : List UInt8) (panel : Panel) :
    pasteFirst win band 0 panel = panel := by
  funext i j
  exact if_neg (fun h => Nat.not_lt_zero _ h.2)

theorem pasteFirst_all (win : Window) (band : List UInt8) (panel : Panel) :
    pasteFirst win band (win.w * win.h) panel = paste win (bandPixels win band) panel := by
  funext i j
  unfold pasteFirst paste
  by_cases hholds : win.Holds i j
  · rw [if_pos ⟨hholds, place_lt hholds⟩, if_pos hholds]
  · rw [if_neg (fun h => hholds h.1), if_neg hholds]

theorem pasteFirst_succ (hw : 0 < win.w) (h : n < win.w * win.h) (panel : Panel) (i j : Nat) :
    pasteFirst win band (n + 1) panel i j =
      if i = win.x + n % win.w ∧ j = win.y + n / win.w then colorAt band n
      else pasteFirst win band n panel i j := by
  unfold pasteFirst
  by_cases hhere : i = win.x + n % win.w ∧ j = win.y + n / win.w
  · have hholds : win.Holds i j := by
      rw [hhere.1, hhere.2]
      exact holds_of_lt hw h
    have hplace := (place_eq_iff hholds).mpr hhere
    rw [if_pos hhere, if_pos ⟨hholds, by omega⟩]
    exact congrArg (colorAt band) hplace
  · rw [if_neg hhere]
    by_cases hholds : win.Holds i j
    · have hplace : place win i j ≠ n := fun heq => hhere ((place_eq_iff hholds).mp heq)
      have hiff : place win i j < n + 1 <-> place win i j < n := by omega
      simp only [hholds, hiff]
    · rw [if_neg (fun hin => hholds hin.1), if_neg (fun hin => hholds hin.1)]

theorem succ_place (n : Nat) {w : Nat} (hw : 0 < w) :
    (n % w + 1 < w ∧ (n + 1) % w = n % w + 1 ∧ (n + 1) / w = n / w) ∨
      (n % w + 1 = w ∧ (n + 1) % w = 0 ∧ (n + 1) / w = n / w + 1) := by
  have hlt := Nat.mod_lt n hw
  have hsum := Nat.div_add_mod n w
  by_cases hrow : n % w + 1 < w
  · have hsucc : n + 1 = w * (n / w) + (n % w + 1) := by omega
    refine Or.inl ⟨hrow, ?_, ?_⟩
    · rw [hsucc, Nat.mul_comm, Nat.mul_add_mod_of_lt hrow]
    · rw [hsucc, Nat.mul_add_div hw, Nat.div_eq_of_lt hrow, Nat.add_zero]
  · have hend : n % w + 1 = w := by omega
    have hsucc : n + 1 = w * (n / w + 1) := by
      rw [Nat.mul_add, Nat.mul_one]
      omega
    refine Or.inr ⟨hend, ?_, ?_⟩
    · rw [hsucc, Nat.mul_mod_right]
    · rw [hsucc, Nat.mul_div_cancel_left _ hw]

theorem Streaming.pixel (hw : 0 < win.w) (hn : n < win.w * win.h)
    (h : Streaming win band before n p) :
    Streaming win band before (n + 1)
      (run p [.byte (band.getD (2 * n) 0), .byte (band.getD (2 * n + 1) 0)]) := by
  rcases h.cursor hn with ⟨hcol, hrow⟩
  have hmemory : (fun i j =>
      if i = p.col ∧ j = p.row then
        colorOf (band.getD (2 * n) 0) (band.getD (2 * n + 1) 0)
      else
        p.memory i j) = pasteFirst win band (n + 1) before := by
    funext i j
    rw [pasteFirst_succ hw hn, hcol, hrow, h.memory_eq]
    rfl
  have hrun : run p [.byte (band.getD (2 * n) 0), .byte (band.getD (2 * n + 1) 0)] =
      advance { p with memory := pasteFirst win band (n + 1) before } := by
    unfold run
    simp only [List.foldl_cons, List.foldl_nil, step, h.selected, h.data, h.writing,
      Controller.pixel, h.high_eq, Bool.false_eq_true, Bool.not_true, if_false, if_true]
    rw [hmemory]
  have hx0 := h.x0_eq
  have hx1 := h.x1_eq
  have hy1 := h.y1_eq
  rw [hrun]
  unfold advance
  simp only
  rcases succ_place n hw with ⟨hsame, hmod, hdiv⟩ | ⟨hend, hmod, hdiv⟩
  · rw [if_pos (by omega)]
    refine { h with cursor := fun _ => ?_, memory_eq := rfl }
    rw [hmod, hdiv]
    exact ⟨congrArg (· + 1) hcol, hrow⟩
  · rw [if_neg (by omega)]
    split
    · refine { h with cursor := fun _ => ?_, memory_eq := rfl }
      rw [hmod, hdiv]
      exact ⟨hx0, congrArg (· + 1) hrow⟩
    · -- the row was the last one, so this was the last pixel
      refine { h with cursor := fun hmore => ?_, memory_eq := rfl }
      have hbelow : (n + 1) / win.w < win.h := Nat.div_lt_of_lt_mul hmore
      omega

theorem Streaming.rest (hw : 0 < win.w) (hlen : band.length = 2 * (win.w * win.h)) (m : Nat)
    (hm : n + m = win.w * win.h) (h : Streaming win band before n p) :
    Streaming win band before (win.w * win.h)
      (run p ((band.drop (2 * n)).map Event.byte)) := by
  induction m generalizing n p with
  | zero =>
      have hn : n = win.w * win.h := hm
      rw [List.drop_eq_nil_of_le (by omega), ← hn]
      exact h
  | succ m ih =>
      have hi : 2 * n < band.length := by omega
      have hi' : 2 * n + 1 < band.length := by omega
      have hhead : band.drop (2 * n) =
          [band.getD (2 * n) 0, band.getD (2 * n + 1) 0] ++ band.drop (2 * (n + 1)) := by
        rw [List.drop_eq_getElem_cons hi, List.drop_eq_getElem_cons hi',
          List.getElem_eq_getD 0, List.getElem_eq_getD 0]
        rfl
      rw [hhead, List.map_append, run_append]
      exact ih (by omega) (h.pixel hw (by omega))

theorem Streaming.first (hselected : p.csHigh = false) (hdata : p.dcHigh = true)
    (hwriting : p.command = ramwr) (hx0 : p.x0 = win.x) (hx1 : p.x1 = win.x + win.w - 1)
    (hy0 : p.y0 = win.y) (hy1 : p.y1 = win.y + win.h - 1) (hhigh : p.high = none)
    (hcol : p.col = win.x) (hrow : p.row = win.y) (hmemory : p.memory = before) :
    Streaming win band before 0 p where
  selected := hselected
  data := hdata
  writing := hwriting
  x0_eq := hx0
  x1_eq := hx1
  y0_eq := hy0
  y1_eq := hy1
  high_eq := hhigh
  cursor := by
    intro _
    rw [Nat.zero_mod, Nat.zero_div]
    exact ⟨hcol, hrow⟩
  memory_eq := hmemory.trans (pasteFirst_zero win band before).symm

theorem Streaming.memory_run (hw : 0 < win.w) (hlen : band.length = 2 * (win.w * win.h))
    (h : Streaming win band before 0 p) :
    (run p (band.map Event.byte)).memory = paste win (bandPixels win band) before := by
  have hall := Streaming.rest hw hlen (win.w * win.h) (Nat.zero_add _) h
  rw [Nat.mul_zero, List.drop_zero] at hall
  rw [hall.memory_eq, pasteFirst_all]

end Pixels

end St7789
end Foundation
end TWA
