import TWA.Render.Settling

/-!
# Seven ticks

The bar and twelve rows are thirteen bands.  At two bands a tick, seven ticks
bring the rows that are to be seen, unless a tick is held back: the time for
which the diagnostic bars stay is measured again whenever the millisecond counter
comes back to the first tick.
-/

namespace TWA

open Foundation
open Foundation.Pixels
open Display (DisplayState SubtitleLine)
open Screen (screenW)

namespace Render

section Runs

variable {font : Font} {advance : Char -> Nat} {glyph : Char -> List (Int × Int)}
  {ui ui' : Ui} {disp : Display} {key : Nat} {inputs : List TickInput}

structure Healthy (s : Screen) : Prop where
  writable : Writable s
  torn : forall i j, s.torn i j = false

theorem run_drawn (hfont : font.Typesets advance glyph)
    (hrun : Run (Guarded (fun input ui => Same disp key input ∧ ¬Held input.nowMs ui.renderer)
      (step font)) ui inputs ui')
    (hband : HasBand ui.renderer) (h : Healthy ui.screen)
    (htaken : ui.renderer.taken = true) :
    HasBand ui'.renderer ∧ Healthy ui'.screen ∧ ui'.renderer.taken = true ∧
      pending font disp key ui'.renderer =
        pending font disp key ui.renderer - maxPush * inputs.length := by
  induction hrun with
  | nil ui => exact ⟨hband, h, htaken, rfl⟩
  | @cons ui next last input inputs hstep _ ih =>
      rcases hstep with ⟨⟨⟨hdisp, hkey⟩, hheld⟩, htick⟩
      have hdrawn := tick_drawn input.disp input.clock hfont hband
        h.writable htaken hheld
      rw [← htick, hkey, hdisp] at hdrawn
      have hhealthy : Healthy next.screen :=
        ⟨hdrawn.writable, fun i j => hdrawn.torn i j (h.torn i j)⟩
      rcases ih hdrawn.band hhealthy (hdrawn.taken.trans htaken) with
        ⟨hband', hhealthy', htaken', hpending⟩
      refine ⟨hband', hhealthy', htaken', ?_⟩
      rw [hpending, hdrawn.left, List.length_cons]
      unfold maxPush
      omega

theorem run_quiet (hfont : font.Typesets advance glyph)
    (hrun : Run (Guarded (fun input _ => Same disp key input) (step font)) ui inputs ui')
    (hband : HasBand ui.renderer) (h : Writable ui.screen)
    (htaken : ui.renderer.taken = true) (hnone : pending font disp key ui.renderer = 0) :
    ui'.screen.pushes = ui.screen.pushes := by
  induction hrun with
  | nil ui => rfl
  | @cons ui next last input inputs hstep _ ih =>
      rcases hstep with ⟨⟨hdisp, hkey⟩, htick⟩
      by_cases hheld : Held input.nowMs ui.renderer
      · have hsame := tick_held font input.disp input.clock h.1 hheld
        rw [← htick] at hsame
        rw [hsame] at ih
        exact ih hband h htaken hnone
      · have hdrawn := tick_drawn input.disp input.clock hfont hband h
          htaken hheld
        rw [← htick, hkey, hdisp] at hdrawn
        have hpushes := hdrawn.pushes
        have hleft := hdrawn.left
        rw [hnone] at hpushes hleft
        rw [ih hdrawn.band hdrawn.writable (hdrawn.taken.trans htaken) hleft, hpushes]
        rfl

/-! ## From boot -/

theorem Healthy.push {s : Screen} (h : Healthy s) (win : Window) (pixels : Panel) :
    Healthy (s.push win pixels).2 := by
  rw [push_of_writable h.writable]
  exact ⟨h.writable.afterWrite win pixels, fun i j => afterWrite_torn (h.torn i j)⟩

theorem Healthy.fillArea {s : Screen} (h : Healthy s) (win : Window) (color : UInt16) :
    Healthy (s.fillArea win color).2 := by
  have hpush := h.push win (fun _ _ => color)
  unfold Screen.push at hpush
  unfold Screen.fillArea
  split
  · exact h
  · rename_i hready
    rw [if_neg hready] at hpush
    split
    · exact h
    · exact hpush

theorem boot_healthy (panel : Panel) : Healthy (boot panel []).screen := by
  have hnew : Healthy (Screen.new panel []) := ⟨⟨rfl, rfl⟩, fun _ _ => rfl⟩
  have hbars : forall (bars : List (Window × UInt16)) (s : Screen), Healthy s ->
      Healthy (bars.foldl (fun s bar => (s.fillArea bar.1 bar.2).2) s) := by
    intro bars
    induction bars with
    | nil => exact fun _ h => h
    | cons bar bars ih => exact fun s h => ih _ (h.fillArea bar.1 bar.2)
  unfold boot Screen.selfTestBars
  generalize Screen.testBars = bars
  split
  · exact hnew
  · exact hbars bars _ hnew

theorem clearNext_healthy (hband : HasBand ui.renderer) (h : Healthy ui.screen) :
    Healthy (clearNext ui).screen := by
  rw [(clearNext_cleared hband).screen]
  exact h.push _ _

theorem tick_healthy (hfont : font.Typesets advance glyph) (input : TickInput)
    (hband : HasBand ui.renderer) (h : Healthy ui.screen) :
    Healthy (tick font input.disp input.clock input.nowMs ui).screen := by
  rw [tick_ready font input.disp input.clock input.nowMs h.writable.1]
  by_cases hheld : Held input.nowMs ui.renderer
  · rw [if_pos hheld]
    exact h
  · rw [if_neg hheld]
    split
    · have hdrawn := drawFrame_drawn input.disp input.clock input.nowMs hfont hband h.writable
      exact ⟨hdrawn.writable, fun i j => hdrawn.torn i j (h.torn i j)⟩
    · exact clearNext_healthy hband h

theorem run_healthy (hfont : font.Typesets advance glyph) {panel : Panel}
    (hrun : Run (step font) (boot panel []) inputs ui) :
    Agrees font (fun _ => True) ui ∧ Healthy ui.screen := by
  apply hrun.invariant (P := fun ui => Agrees font (fun _ => True) ui ∧ Healthy ui.screen)
    ?_ ⟨boot_agrees panel [], boot_healthy panel⟩
  intro input ui ui' h hstep
  rw [hstep]
  exact ⟨tick_agrees hfont trivial h.1, tick_healthy hfont input h.1.band h.2⟩

theorem rows_of_agrees {P : Display -> Prop} (h : Agrees font P ui) (hhealthy : Healthy ui.screen)
    (htaken : ui.renderer.taken = true) (slot : Fin visible) {x y : Nat} (hx : x < screenW)
    (hy : y < lineH) :
    ui.screen.panel x (rowTop slot + y) = rowPicture font (ui.renderer.drawn slot) x y := by
  have hslot : InSlot slot (rowTop slot + y) := by
    constructor
    · exact Nat.le_add_right _ _
    · exact Nat.add_lt_add_left hy _
  have hremembers := h.pixels x (rowTop slot + y) hx hslot.lt (hhealthy.torn _ _)
  have hrow : ((rowTop slot + y : Nat) : Int) - rowTop slot = y := by omega
  rw [hremembers.row htaken slot hslot]
  unfold slotPanel
  rw [hrow]

/-- If no write fails, every row shows its snapshot, and it is the whole picture of it.
While display and bar key stay as they are, seven ticks that are not held back bring the
last rows of the history and the line being typed, and then nothing more is sent. -/
theorem rows_settle_in_seven_ticks (hfont : font.Typesets advance glyph) {panel : Panel}
    (hrun : Run (step font) (boot panel []) inputs ui) (htaken : ui.renderer.taken = true) :
    (forall slot x y, x < screenW -> y < lineH ->
      ui.screen.panel x (rowTop slot + y) = fullRow font (ui.renderer.drawn slot) x y) ∧
      forall {disp : Display} {key : Nat} {calls : List TickInput} {ui' : Ui},
        Run (Guarded
          (fun input ui => Same disp key input ∧ ¬Held input.nowMs ui.renderer) (step font))
          ui calls ui' ->
        7 ≤ calls.length ->
          (forall slot x y, x < screenW -> y < lineH ->
            ui'.screen.panel x (rowTop slot + y) =
              fullRow font ((view disp)[slot.val]?.getD Slot.default) x y) ∧
            forall {more : List TickInput} {ui'' : Ui},
              Run (Guarded (fun input _ => Same disp key input) (step font)) ui' more ui'' ->
                ui''.screen.pushes = ui'.screen.pushes := by
  rcases run_healthy hfont hrun with ⟨hagrees, hhealthy⟩
  constructor
  · intro slot x y hx hy
    rw [fullRow_eq hx hy]
    exact rows_of_agrees hagrees hhealthy htaken slot hx hy
  · intro disp key calls ui' hcalls hseven
    rcases run_drawn hfont hcalls hagrees.band hhealthy htaken with
      ⟨hband', hhealthy', htaken', hpending⟩
    have hnone : pending font disp key ui'.renderer = 0 := by
      have hle := pending_le font disp key ui.renderer
      rw [hpending]
      unfold maxPush
      omega
    constructor
    · intro slot x y hx hy
      have hagrees' : Agrees font (fun _ => True) ui' :=
        (run_healthy hfont (hrun.append hcalls.of_guarded)).1
      have hclean := (clean_of_pending hnone).2 slot
      rw [fullRow_eq hx hy, rows_of_agrees hagrees' hhealthy' htaken' slot hx hy,
        rowPicture_of_clean hclean, desiredRow_eq]
    · intro more ui'' hmore
      exact run_quiet hfont hmore hband' hhealthy'.writable htaken' hnone

/-! ## A run by hand -/

def emptyTick (nowMs : UInt32) : TickInput :=
  { disp := Display.new
    clock := Ntp.Clock.new
    nowMs := nowMs }

theorem not_held_801 {r : Renderer} (hstart : r.startMs = 1) : ¬Held 801 r := by
  unfold Held startedAt
  rw [hstart]
  decide

theorem tick_clears (font : Font) {nowMs : UInt32} (hok : ui.screen.ok = true)
    (htaken : ui.renderer.taken = false) (hheld : ¬Held nowMs ui.renderer) :
    step font (emptyTick nowMs) ui (clearNext ui) := by
  have htick := tick_ready font Display.new Ntp.Clock.new nowMs hok
  rw [if_neg hheld, htaken, if_neg Bool.false_ne_true] at htick
  exact htick.symm

theorem clearing_ends (font : Font) (n : Nat) (hband : HasBand ui.renderer) (h : Healthy ui.screen)
    (htaken : ui.renderer.taken = false) (hstart : ui.renderer.startMs = 1)
    (hrows : 240 - ui.renderer.clearRow < n) :
    exists inputs ui', Run (step font) ui inputs ui' ∧ ui'.renderer.taken = true ∧
      ui'.renderer.startMs = 1 ∧ ui'.renderer.drawn = fun _ => Slot.default := by
  induction n generalizing ui with
  | zero => exact absurd hrows (Nat.not_lt_zero _)
  | succ n ih =>
      have htick := tick_clears font h.writable.1 htaken (not_held_801 hstart)
      have hcleared := clearNext_cleared hband
      have hstart' := hcleared.startMs.trans hstart
      by_cases hdone : 240 ≤ (clearNext ui).renderer.clearRow
      · rcases hcleared.done hdone with ⟨htaken', hdrawn, _⟩
        exact ⟨[emptyTick 801], clearNext ui, .single htick, htaken', hstart', hdrawn⟩
      · have htaken' := (hcleared.more (Nat.lt_of_not_le hdone)).1.trans htaken
        have hless : 240 - (clearNext ui).renderer.clearRow < n := by
          rw [hcleared.clearRow] at hdone ⊢
          unfold clearWindow lineH at hdone ⊢
          simp only at hdone ⊢
          omega
        rcases ih hcleared.band (clearNext_healthy hband h) htaken' hstart' hless with
          ⟨inputs, ui', hrun, hend⟩
        exact ⟨emptyTick 801 :: inputs, ui', .cons htick hrun, hend⟩

theorem first_tick (font : Font) (hok : ui.screen.ok = true) (hnew : ui.renderer = Renderer.new) :
    exists next, step font (emptyTick 1) ui next ∧ next.screen = ui.screen ∧
      next.renderer = { Renderer.new with startMs := 1 } := by
  have hheld : Held 1 ui.renderer := by
    rw [hnew]
    decide
  have hstarted : startedAt 1 ui.renderer = 1 := by
    rw [hnew]
    rfl
  have htick := tick_held font Display.new Ntp.Clock.new hok hheld
  unfold started at htick
  rw [hstarted, hnew] at htick
  exact ⟨_, htick.symm, rfl, rfl⟩

theorem takes_over (font : Font) (panel : Panel) :
    exists inputs ui, Run (step font) (boot panel []) inputs ui ∧
      ui.renderer.taken = true ∧ ui.renderer.startMs = 1 ∧
      ui.renderer.drawn = fun _ => Slot.default := by
  have hhealthy := boot_healthy panel
  have hnew : (boot panel []).renderer = Renderer.new := rfl
  generalize boot panel [] = ui0 at hhealthy hnew ⊢
  rcases first_tick font hhealthy.writable.1 hnew with ⟨next, hfirst, hscreen, hrenderer⟩
  have hband : HasBand next.renderer := by
    rw [hrenderer]
    exact List.length_replicate
  have htaken : next.renderer.taken = false := by
    rw [hrenderer]
    rfl
  have hstart : next.renderer.startMs = 1 := by
    rw [hrenderer]
  rw [← hscreen] at hhealthy
  rcases clearing_ends font 241 hband hhealthy htaken hstart
      (Nat.lt_succ_of_le (Nat.sub_le _ _)) with ⟨inputs, ui, hrun, hend⟩
  exact ⟨emptyTick 1 :: inputs, ui, .cons hfirst hrun, hend⟩

end Runs

def oneRow : Display :=
  { Display.new with history := [{ text := ['x'], color := Display.aiColor }] }

/-- With the clock not set and no volume shown, the key does not depend on the time. -/
theorem barKey_timeless {disp : Display} (h : disp.volumeUntilMs = 0) (nowMs nowMs' : UInt32) :
    barKey disp Ntp.Clock.new nowMs = barKey disp Ntp.Clock.new nowMs' := by
  have hshown : forall t, showVolume disp t = false := by
    intro t
    unfold showVolume
    rw [h]
    rfl
  have hclock : forall t, Ntp.clockHm t Ntp.Clock.new = none := fun _ => rfl
  unfold barKey
  rw [hshown, hshown, hclock, hclock]

theorem draws_on {ui : Ui} (hband : HasBand ui.renderer) (h : Writable ui.screen)
    (htaken : ui.renderer.taken = true) (hstart : ui.renderer.startMs = 1) (n : Nat) :
    exists calls ui', calls.length = n ∧
      Run (Guarded
        (fun input ui => Same oneRow (barKey oneRow Ntp.Clock.new 1) input ∧
          ¬Held input.nowMs ui.renderer) (step dots)) ui calls ui' := by
  have hforever : exists calls ui', calls.length = n ∧
      Run (Guarded
        (fun input ui => Same oneRow (barKey oneRow Ntp.Clock.new 1) input ∧
          ¬Held input.nowMs ui.renderer) (step dots)) ui calls ui' ∧
      HasBand ui'.renderer ∧ Writable ui'.screen ∧
        ui'.renderer.taken = true ∧ ui'.renderer.startMs = 1 := by
    apply Run.forever (P := fun (ui : Ui) => HasBand ui.renderer ∧ Writable ui.screen ∧
      ui.renderer.taken = true ∧ ui.renderer.startMs = 1) ?_ ⟨hband, h, htaken, hstart⟩ n
    intro ui hui
    rcases hui with ⟨hband, h, htaken, hstart⟩
    have hheld := not_held_801 hstart
    have hdrawn := tick_drawn oneRow Ntp.Clock.new dots_typesets hband h htaken hheld
    exact ⟨⟨oneRow, Ntp.Clock.new, 801⟩, _, ⟨⟨⟨rfl, barKey_timeless rfl 801 1⟩, hheld⟩, rfl⟩,
      hdrawn.band, hdrawn.writable, hdrawn.taken.trans htaken, hdrawn.startMs.trans hstart⟩
  rcases hforever with ⟨calls, ui', hlen, hcalls, _⟩
  exact ⟨calls, ui', hlen, hcalls⟩

/-- A row is shown after seven ticks. -/
theorem rows_settle_in_seven_ticks_one_row :
    exists ui : Ui, forall slot x y, x < screenW -> y < lineH ->
      ui.screen.panel x (rowTop slot + y) =
        fullRow dots ((view oneRow)[slot.val]?.getD Slot.default) x y := by
  rcases takes_over dots (fun _ _ => 0) with ⟨inputs, ui, hrun, htaken, hstart, _⟩
  rcases run_healthy dots_typesets hrun with ⟨hagrees, hhealthy⟩
  rcases draws_on hagrees.band hhealthy.writable htaken hstart 7 with
    ⟨calls, ui', hlen, hcalls⟩
  have hsettled := (rows_settle_in_seven_ticks dots_typesets hrun htaken).2 hcalls
    (Nat.le_of_eq hlen.symm)
  exact ⟨ui', hsettled.1⟩

theorem held_run (font : Font) {ui : Ui} (h : Healthy ui.screen)
    (hstart : ui.renderer.startMs = 1) (disp : Display) (clock : Ntp.Clock)
    (times : List UInt32) (htimes : forall nowMs, nowMs ∈ times -> nowMs - 1 < barHoldMs) :
    Run (step font) ui (times.map fun nowMs => ⟨disp, clock, nowMs⟩) ui := by
  induction times with
  | nil => exact .nil ui
  | cons nowMs times ih =>
      have hstarted : startedAt nowMs ui.renderer = 1 := by
        unfold startedAt
        rw [hstart]
        rfl
      have hheld : Held nowMs ui.renderer := by
        unfold Held
        rw [hstarted]
        exact htimes nowMs List.mem_cons_self
      have hne : ui.renderer.startMs ≠ 0 := by
        rw [hstart]
        decide
      have htick := tick_held font disp clock h.writable.1 hheld
      rw [started_of_ne nowMs hne] at htick
      exact .cons htick.symm (ih fun t ht => htimes t (List.mem_cons_of_mem nowMs ht))

/-- Seven ticks just after the counter has come back to the first tick, 2 ^ 32 ms later,
do not bring a row onto the panel. -/
theorem held_rows_do_not_settle :
    exists (inputs calls : List TickInput) (ui ui' : Ui) (key : Nat),
      Run (step dots) (boot (fun _ _ => 0) []) inputs ui ∧ ui.renderer.taken = true ∧
        calls.length = 7 ∧ (forall input, input ∈ calls -> Same oneRow key input) ∧
        Run (step dots) ui calls ui' ∧
        exists (slot : Fin visible) (x y : Nat), x < screenW ∧ y < lineH ∧
          ui'.screen.panel x (rowTop slot + y) ≠
            fullRow dots ((view oneRow)[slot.val]?.getD Slot.default) x y := by
  rcases takes_over dots (fun _ _ => 0) with ⟨inputs, ui, hrun, htaken, hstart, hdrawn⟩
  rcases run_healthy dots_typesets hrun with ⟨hagrees, hhealthy⟩
  have htimes : forall nowMs : UInt32, nowMs ∈ [1, 2, 3, 4, 5, 6, 7] ->
      nowMs - 1 < barHoldMs := by
    simp only [List.mem_cons, List.not_mem_nil, or_false, forall_eq_or_imp, forall_eq]
    decide
  have hcalls := held_run dots hhealthy hstart oneRow Ntp.Clock.new _ htimes
  refine ⟨inputs, _, ui, ui, barKey oneRow Ntp.Clock.new 1, hrun, htaken, rfl, ?_, hcalls,
    ⟨0, by decide⟩, 4, 2, by decide, by decide, ?_⟩
  · intro input hinput
    rcases List.mem_map.mp hinput with ⟨nowMs, _, hcall⟩
    rw [← hcall]
    exact ⟨rfl, barKey_timeless rfl nowMs 1⟩
  · rw [rows_of_agrees hagrees hhealthy htaken _ (by decide) (by decide), hdrawn,
      fullRow_eq (by decide) (by decide)]
    decide

end Render
end TWA
