import TWA.Foundation.St7789
import TWA.Screen

/-!
# The driver of the panel

Every drawing is one transaction on the bus: the window is set, and pixels are written
into it.  The driver keeps a trace of the wires, and the controller at their other end
tells what it does to the panel.
-/

namespace TWA

open Foundation
open Foundation.Pixels
open Foundation.St7789
open Foundation.St7789.Controller (run word)

namespace Screen

inductive SpiResult where
  | ok
  /-- It fails after some of the bytes. -/
  | error (sent : Nat)
  deriving DecidableEq, Repr

structure Driver where
  /-- Ghost: what has happened on the wires. -/
  trace : List Event
  /-- How the coming writes end; those after them succeed. -/
  spi : List SpiResult
  /-- One row of pixels. -/
  row : List UInt8
  row_length : row.length = screenW * 2
  ok : Bool
  errPrinted : Nat

def fillRow (n : Nat) (color : UInt16) (row : List UInt8) : List UInt8 :=
  (List.range n).foldl (fun row i => setColor row i color) row

@[simp] theorem length_fillRow (n : Nat) (color : UInt16) (row : List UInt8) :
    (fillRow n color row).length = row.length := by
  unfold fillRow
  generalize List.range n = places
  induction places generalizing row with
  | nil => rfl
  | cons i rest ih => exact (ih _).trans length_setColor

theorem take_fillRow {n : Nat} {row : List UInt8} (color : UInt16)
    (h : 2 * n ≤ row.length) : (fillRow n color row).take (2 * n) = solid n color := by
  induction n with
  | zero => rfl
  | succ n ih =>
      have hin : 2 * n + 1 < (fillRow n color row).length := by
        rw [length_fillRow]
        omega
      have hlast : fillRow (n + 1) color row = setColor (fillRow n color row) n color := by
        unfold fillRow
        rw [List.range_succ, List.foldl_append]
        rfl
      rw [hlast, take_setColor hin, ih (by omega), solid_add]
      rfl

namespace Driver

def emit (events : List Event) (d : Driver) : Driver :=
  { d with trace := d.trace ++ events }

def beginTxn (d : Driver) : Driver :=
  d.emit [.cs false]

def endTxn (d : Driver) : Driver :=
  d.emit [.cs true]

def writeBytes (data : List UInt8) (d : Driver) : Driver :=
  match d.spi with
  | .error sent :: rest =>
      { d.emit ((data.take sent).map Event.byte) with
        spi := rest
        errPrinted := if d.errPrinted < 3 then d.errPrinted + 1 else d.errPrinted
        ok := false }
  | spi => { d.emit (data.map Event.byte) with spi := spi.tail }

/-- A command is sent while DC is low, its arguments while it is high. -/
def cmd (c : UInt8) (args : List UInt8) (d : Driver) : Driver :=
  let d := writeBytes [c] (d.emit [.dc false])
  if args.isEmpty then d else writeBytes args (d.emit [.dc true])

def setWindow (x y w h : UInt16) (d : Driver) : Driver :=
  let x1 := x + w - 1
  let y1 := y + h - 1
  let d := cmd caset [hiByte x, loByte x, hiByte x1, loByte x1] d
  let d := cmd raset [hiByte y, loByte y, hiByte y1, loByte y1] d
  let d := writeBytes [ramwr] (d.emit [.dc false])
  d.emit [.dc true]

def pushBand (x y w h : UInt16) (bytes : List UInt8) (d : Driver) : Bool × Driver :=
  if !d.ok then
    (false, d)
  else if bytes.length ≠ w.toNat * h.toNat * 2 then
    (false, d)
  else
    let d := endTxn (writeBytes bytes (setWindow x y w h (beginTxn d)))
    (d.ok, d)

def fillArea (x y w h : UInt16) (color : UInt16) (d : Driver) : Bool × Driver :=
  if !d.ok then
    (false, d)
  else
    let n := w.toNat * 2
    if n > d.row.length then
      (false, d)
    else
      let row := fillRow (n / 2) color d.row
      let d := { d with row := row, row_length := (length_fillRow _ _ _).trans d.row_length }
      let d := setWindow x y w h (beginTxn d)
      let d := (List.range h.toNat).foldl (fun d _ => writeBytes (row.take n) d) d
      let d := endTxn d
      (d.ok, d)

def Works (d : Driver) : Prop :=
  forall result, result ∈ d.spi -> result = .ok

/-- A driver that has gone on to another one: if that one is still well, these are the
events between them. -/
structure Sends (events : List Event) (d d' : Driver) : Prop where
  trace_eq : d'.ok = true -> d.ok = true ∧ d'.trace = d.trace ++ events
  works : d.Works -> d'.Works ∧ d'.ok = d.ok

section Sending

variable {d d' d'' : Driver} {events events' : List Event}

theorem Sends.trans (h : Sends events d d') (h' : Sends events' d' d'') :
    Sends (events ++ events') d d'' := by
  constructor
  · intro hok
    rcases h'.trace_eq hok with ⟨hok', htrace'⟩
    rcases h.trace_eq hok' with ⟨hok'', htrace⟩
    exact ⟨hok'', by rw [htrace', htrace, List.append_assoc]⟩
  · intro hworks
    rcases h.works hworks with ⟨hworks', hok⟩
    rcases h'.works hworks' with ⟨hworks'', hok'⟩
    exact ⟨hworks'', hok'.trans hok⟩

theorem sends_emit (events : List Event) (d : Driver) : Sends events d (d.emit events) :=
  ⟨fun hok => ⟨hok, rfl⟩, fun hworks => ⟨hworks, rfl⟩⟩

theorem sends_writeBytes (data : List UInt8) (d : Driver) :
    Sends (data.map Event.byte) d (d.writeBytes data) := by
  unfold writeBytes
  split
  · rename_i sent rest hspi
    refine ⟨fun hfalse => (nomatch hfalse), fun hworks => ?_⟩
    have hfalse := hworks (.error sent) (by rw [hspi]; exact List.mem_cons_self)
    cases hfalse
  · refine ⟨fun hok => ⟨hok, rfl⟩, fun hworks => ⟨?_, rfl⟩⟩
    intro result hresult
    exact hworks result (List.mem_of_mem_tail hresult)

theorem sends_cmd (c a : UInt8) (args : List UInt8) (d : Driver) :
    Sends ([.dc false, .byte c] ++ .dc true :: (a :: args).map Event.byte) d
      (d.cmd c (a :: args)) := by
  have hcommand : Sends [.dc false, .byte c] d (writeBytes [c] (d.emit [.dc false])) :=
    (sends_emit [.dc false] d).trans (sends_writeBytes [c] _)
  exact hcommand.trans ((sends_emit [.dc true] _).trans (sends_writeBytes (a :: args) _))

theorem sends_repeat (data : List UInt8) (n : Nat) (d : Driver) :
    Sends ((List.replicate n data).flatten.map Event.byte) d
      ((List.range n).foldl (fun d _ => writeBytes data d) d) := by
  induction n generalizing d with
  | zero => exact ⟨fun hok => ⟨hok, (List.append_nil _).symm⟩, fun hworks => ⟨hworks, rfl⟩⟩
  | succ n ih =>
      rw [List.range_succ, List.foldl_append, List.replicate_succ', List.flatten_append,
        List.map_append]
      apply (ih d).trans
      rw [List.flatten_singleton]
      exact sends_writeBytes data _

end Sending

/-! ## Transactions -/

def windowEvents (x y w h : UInt16) : List Event :=
  let x1 := x + w - 1
  let y1 := y + h - 1
  ([.dc false, .byte caset] ++
      .dc true :: [hiByte x, loByte x, hiByte x1, loByte x1].map Event.byte) ++
    (([.dc false, .byte raset] ++
        .dc true :: [hiByte y, loByte y, hiByte y1, loByte y1].map Event.byte) ++
      [.dc false, .byte ramwr, .dc true])

def drawing (x y w h : UInt16) (bytes : List UInt8) : List Event :=
  [.cs false] ++ (windowEvents x y w h ++ (bytes.map Event.byte ++ [.cs true]))

section Transactions

variable {x y w h : UInt16} {bytes : List UInt8} {d : Driver}

theorem sends_setWindow (x y w h : UInt16) (d : Driver) :
    Sends (windowEvents x y w h) d (d.setWindow x y w h) := by
  unfold windowEvents setWindow
  refine (sends_cmd _ _ _ d).trans ((sends_cmd _ _ _ _).trans ?_)
  have hcommand (d : Driver) :
      Sends [.dc false, .byte ramwr] d (writeBytes [ramwr] (d.emit [.dc false])) :=
    (sends_emit [.dc false] d).trans (sends_writeBytes [ramwr] _)
  exact (hcommand _).trans (sends_emit [.dc true] _)

theorem sends_pushBand (hok : d.ok = true) (hlen : bytes.length = w.toNat * h.toNat * 2) :
    Sends (drawing x y w h bytes) d (d.pushBand x y w h bytes).2 ∧
      (d.pushBand x y w h bytes).1 = (d.pushBand x y w h bytes).2.ok := by
  unfold pushBand
  rw [if_neg (by simp [hok]), if_neg (by simp [hlen])]
  refine ⟨?_, rfl⟩
  exact (sends_emit [.cs false] d).trans ((sends_setWindow x y w h _).trans
    ((sends_writeBytes bytes _).trans (sends_emit [.cs true] _)))

theorem sends_fillArea {color : UInt16} (hok : d.ok = true) (hw : w.toNat ≤ screenW) :
    Sends (drawing x y w h (solid (w.toNat * h.toNat) color)) d
        (d.fillArea x y w h color).2 ∧
      (d.fillArea x y w h color).1 = (d.fillArea x y w h color).2.ok := by
  have hfits : w.toNat * 2 ≤ d.row.length := by
    rw [d.row_length]
    omega
  have hrow : (fillRow (w.toNat * 2 / 2) color d.row).take (w.toNat * 2) =
      solid w.toNat color := by
    rw [Nat.mul_div_cancel _ (Nat.zero_lt_succ 1), Nat.mul_comm]
    exact take_fillRow color (by omega)
  unfold fillArea
  rw [if_neg (by simp [hok])]
  simp only
  rw [if_neg (by omega), hrow]
  refine ⟨?_, rfl⟩
  have hrows := sends_repeat (solid w.toNat color) h.toNat
  rw [flatten_replicate_solid] at hrows
  let filled : Driver :=
    { d with
      row := fillRow (w.toNat * 2 / 2) color d.row
      row_length := (length_fillRow _ _ _).trans d.row_length }
  have hfilled : Sends [] d filled :=
    ⟨fun hok => ⟨hok, (List.append_nil _).symm⟩, fun hworks => ⟨hworks, rfl⟩⟩
  exact hfilled.trans ((sends_emit [.cs false] filled).trans ((sends_setWindow x y w h _).trans
    ((hrows _).trans (sends_emit [.cs true] _))))

structure OnScreen (x y w h : UInt16) : Prop where
  w_pos : 1 ≤ w.toNat
  h_pos : 1 ≤ h.toNat
  right_le : x.toNat + w.toNat ≤ screenW
  bottom_le : y.toNat + h.toNat ≤ screenH

theorem toNat_last {a n : UInt16} (hpos : 1 ≤ n.toNat) (h : a.toNat + n.toNat ≤ 240) :
    (a + n - 1).toNat = a.toNat + n.toNat - 1 := by
  have hsum : (a + n).toNat = a.toNat + n.toNat := by
    rw [UInt16.toNat_add]
    exact Nat.mod_eq_of_lt (by omega)
  have hone : (1 : UInt16).toNat = 1 := rfl
  rw [UInt16.toNat_sub, hsum, hone]
  omega

def windowOf (x y w h : UInt16) : Window :=
  ⟨x.toNat, y.toNat, w.toNat, h.toNat⟩

theorem run_windowEvents {p : Controller} (hselected : p.csHigh = false) (x y w h : UInt16) :
    run p (windowEvents x y w h) =
      { p with
        dcHigh := true
        command := ramwr
        params := []
        high := none
        x0 := x.toNat
        x1 := (x + w - 1).toNat
        y0 := y.toNat
        y1 := (y + h - 1).toNat
        col := x.toNat
        row := y.toNat } := by
  unfold windowEvents
  simp only
  rw [run_append, run_caset hselected, run_append, run_raset, run_ramwr]
  · simp only [word, toNat_bytes]
  · exact hselected
  · exact hselected

/-- Whatever the controller was in the middle of, the bytes end up in the rectangle. -/
theorem drawing_paints (hscreen : OnScreen x y w h)
    (hlen : bytes.length = w.toNat * h.toNat * 2) (p : Controller) :
    (run p (drawing x y w h bytes)).memory =
      paste (windowOf x y w h) (bandPixels (windowOf x y w h) bytes) p.memory := by
  have hselected : run p [.cs false] = { p with csHigh := false } := rfl
  have hright := toNat_last hscreen.w_pos hscreen.right_le
  have hbottom := toNat_last hscreen.h_pos hscreen.bottom_le
  unfold drawing
  rw [run_append, hselected, run_append, run_windowEvents rfl, run_append]
  -- taking CS back leaves the memory alone
  change (run _ (bytes.map Event.byte)).memory = _
  refine Streaming.memory_run hscreen.w_pos ?_
    (Streaming.first rfl rfl rfl rfl hright rfl hbottom rfl rfl rfl rfl)
  rw [hlen, Nat.mul_comm]
  rfl

end Transactions

end Driver

/-- The answer of a drawing call: unless a write fails it is `true`, and then the trace has
gone on with events that put pixels into a window and leave the rest of the panel alone,
whatever state the controller was in. -/
structure Draws (win : Window) (pixels : Panel) (d : Driver) (answer : Bool × Driver) : Prop where
  works : d.Works -> answer.1 = true ∧ answer.2.Works
  draws : answer.1 = true ->
    exists events, answer.2.trace = d.trace ++ events ∧
      forall p : Controller, (run p events).memory = paste win pixels p.memory

section Drawing

variable {x y w h : UInt16} {d : Driver} {bytes : List UInt8} {answer : Bool × Driver}

open Driver

theorem Driver.Sends.draws (hscreen : OnScreen x y w h) (hok : d.ok = true)
    (hlen : bytes.length = w.toNat * h.toNat * 2)
    (hsends : Sends (drawing x y w h bytes) d answer.2) (hanswer : answer.1 = answer.2.ok) :
    Draws (windowOf x y w h) (bandPixels (windowOf x y w h) bytes) d answer where
  works := by
    intro hworks
    rcases hsends.works hworks with ⟨hworks', hok'⟩
    exact ⟨by rw [hanswer, hok', hok], hworks'⟩
  draws := by
    intro htrue
    rw [hanswer] at htrue
    exact ⟨_, (hsends.trace_eq htrue).2, drawing_paints hscreen hlen⟩

variable (x y w h d) in
/-- With no SPI error, `push_band` draws just its bytes into just its rectangle, and
`fill_area` does to the wires what `push_band` does with a band of the colour. -/
theorem draws_the_rectangle (hscreen : OnScreen x y w h) (hok : d.ok = true) :
    (forall bytes, bytes.length = 2 * w.toNat * h.toNat ->
      Draws (windowOf x y w h) (bandPixels (windowOf x y w h) bytes) d
        (d.pushBand x y w h bytes)) ∧
    forall color,
      Draws (windowOf x y w h) (fun _ _ => color) d (d.fillArea x y w h color) ∧
        (d.Works ->
          (d.fillArea x y w h color).2.trace =
            (d.pushBand x y w h (solid (w.toNat * h.toNat) color)).2.trace) := by
  have hwide : w.toNat ≤ screenW := by
    have hright := hscreen.right_le
    omega
  constructor
  · intro bytes hlen
    have hlen' : bytes.length = w.toNat * h.toNat * 2 := by
      rw [hlen, Nat.mul_assoc, Nat.mul_comm]
    rcases sends_pushBand hok hlen' with ⟨hsends, hanswer⟩
    exact hsends.draws hscreen hok hlen' hanswer
  · intro color
    have hlen : (solid (w.toNat * h.toNat) color).length = w.toNat * h.toNat * 2 := by
      rw [length_solid, Nat.mul_comm]
    rcases sends_fillArea hok hwide with ⟨hsends, hanswer⟩
    rcases sends_pushBand hok hlen with ⟨hsends', _⟩
    have hdraws := hsends.draws hscreen hok hlen hanswer
    constructor
    · refine ⟨hdraws.works, fun htrue => ?_⟩
      rcases hdraws.draws htrue with ⟨events, htrace, hpaste⟩
      refine ⟨events, htrace, fun p => ?_⟩
      rw [hpaste p]
      exact paste_solid (windowOf x y w h) color p.memory
    · intro hworks
      rcases hsends.works hworks with ⟨_, hok'⟩
      rcases hsends'.works hworks with ⟨_, hok''⟩
      rw [(hsends.trace_eq (hok'.trans hok)).2, (hsends'.trace_eq (hok''.trans hok)).2]

/-- On the panel a drawing without an error is the transaction that the renderer is verified
with. -/
theorem Draws.refines {win : Window} {pixels : Panel} {p : Controller} {s : Screen}
    (hdraws : Draws win pixels d answer) (hworks : d.Works)
    (hpanel : (run p d.trace).memory = s.panel) (hsucceeds : s.outcomes = []) :
    (s.transact win pixels).1 = answer.1 ∧
      (s.transact win pixels).2.panel = (run p answer.2.trace).memory := by
  have hanswer := (hdraws.works hworks).1
  rcases hdraws.draws hanswer with ⟨events, htrace, hpaste⟩
  unfold transact
  rw [hsucceeds, hanswer, htrace, run_append, hpaste, hpanel]
  exact ⟨rfl, rfl⟩

def Driver.ready : Driver :=
  { trace := []
    spi := []
    row := List.replicate (screenW * 2) 0
    row_length := List.length_replicate
    ok := true
    errPrinted := 0 }

/-- A white rectangle of six pixels at the lower right corner. -/
theorem draws_the_rectangle_white :
    Draws (windowOf 238 237 2 3) (fun _ _ => 0xFFFF) Driver.ready
      (Driver.ready.fillArea 238 237 2 3 0xFFFF) :=
  ((draws_the_rectangle 238 237 2 3 Driver.ready
    ⟨by decide, by decide, by decide, by decide⟩ rfl).2 0xFFFF).1

end Drawing

end Screen
end TWA
