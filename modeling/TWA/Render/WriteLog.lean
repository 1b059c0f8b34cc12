import TWA.Render.Pushes

/-!
# The log of the writes

What the renderer has tried to write is logged, with the answers of the driver.
The log tells what the renderer takes to be drawn and over which pixels the last
write has failed.
-/

namespace TWA

open Foundation
open Foundation.Pixels
open Screen (screenW screenH)

namespace Render

inductive Write where
  | clear (row : Nat)
  | bar (key : Nat)
  | row (slot : Fin visible) (p : Painting)
  deriving DecidableEq, Repr

def Write.window : Write -> Window
  | .clear top => { x := 0, y := top, w := screenW, h := min lineH (240 - top) }
  | .bar _ => barWindow
  | .row slot p => windowOf slot p

structure Attempt where
  write : Write
  written : Bool
  deriving DecidableEq, Repr

/-! ## What a tick tries -/

/-- The loop over the rows ends with a write that fails. -/
def rowAttempts (font : Font) (disp : Display) :
    List (Fin visible) -> Nat -> Ui -> List Attempt
  | [], _, _ => []
  | slot :: rest, pushed, ui =>
      if pushed ≥ maxPush then
        []
      else
        match paintingOf font (desiredRow disp slot) (ui.renderer.drawn slot) with
        | none => rowAttempts font disp rest pushed ui
        | some p =>
            match paintRow font slot p ui with
            | (false, _) => [⟨.row slot p, false⟩]
            | (true, ui) =>
                let drawn := Function.update ui.renderer.drawn slot p.slot
                ⟨.row slot p, true⟩ ::
                  rowAttempts font disp rest (pushed + 1)
                    { ui with renderer := { ui.renderer with drawn := drawn } }

def frameAttempts (font : Font) (input : TickInput) (ui : Ui) : List Attempt :=
  let key := barKey input.disp input.clock input.nowMs
  if ui.renderer.barKey != key then
    match pushBar font input.disp input.clock input.nowMs ui with
    | (false, _) => [⟨.bar key, false⟩]
    | (true, ui) =>
        ⟨.bar key, true⟩ :: rowAttempts font input.disp (List.finRange visible) 1 ui
  else
    rowAttempts font input.disp (List.finRange visible) 0 ui

def tickAttempts (font : Font) (input : TickInput) (ui : Ui) : List Attempt :=
  if !ui.screen.isReady then
    []
  else if Held input.nowMs ui.renderer then
    []
  else if !ui.renderer.taken then
    let push := clearPush ui
    [⟨.clear ui.renderer.clearRow, (ui.screen.pushBand push.win push.bytes).1⟩]
  else
    frameAttempts font input ui

/-- The state after some calls. -/
def ticked (font : Font) : List TickInput -> Ui -> Ui
  | [], ui => ui
  | input :: inputs, ui =>
      ticked font inputs (tick font input.disp input.clock input.nowMs ui)

def attempts (font : Font) : List TickInput -> Ui -> List Attempt
  | [], _ => []
  | input :: inputs, ui =>
      tickAttempts font input ui ++
        attempts font inputs (tick font input.disp input.clock input.nowMs ui)

/-! ## Reading the log -/

/-- The last write over a pixel has failed. -/
def damaged (log : List Attempt) (i j : Nat) : Bool :=
  log.foldl (fun failed a => if a.write.window.Holds i j then !a.written else failed) false

def barWritten (log : List Attempt) : Option Nat :=
  log.foldl
    (fun last a =>
      match a.write with
      | .bar key => if a.written then some key else last
      | _ => last)
    none

/-- The row that was written last into a slot; it is empty before. -/
def rowWritten (log : List Attempt) (slot : Fin visible) : Slot :=
  log.foldl
    (fun last a =>
      match a.write with
      | .row at' p => if a.written && at' == slot then p.slot else last
      | _ => last)
    Slot.default

section Reading

variable {log : List Attempt} {a : Attempt} {w : Bool} {i j : Nat}

theorem damaged_snoc (log : List Attempt) (a : Attempt) (i j : Nat) :
    damaged (log ++ [a]) i j =
      if a.write.window.Holds i j then !a.written else damaged log i j :=
  List.foldl_concat ..

theorem barWritten_clear (log : List Attempt) (row : Nat) (w : Bool) :
    barWritten (log ++ [⟨.clear row, w⟩]) = barWritten log :=
  List.foldl_concat ..

theorem barWritten_bar (log : List Attempt) (key : Nat) (w : Bool) :
    barWritten (log ++ [⟨.bar key, w⟩]) = if w then some key else barWritten log :=
  List.foldl_concat ..

theorem barWritten_row (log : List Attempt) (slot : Fin visible) (p : Painting) (w : Bool) :
    barWritten (log ++ [⟨.row slot p, w⟩]) = barWritten log :=
  List.foldl_concat ..

theorem rowWritten_clear (log : List Attempt) (row : Nat) (w : Bool) (slot : Fin visible) :
    rowWritten (log ++ [⟨.clear row, w⟩]) slot = rowWritten log slot :=
  List.foldl_concat ..

theorem rowWritten_bar (log : List Attempt) (key : Nat) (w : Bool) (slot : Fin visible) :
    rowWritten (log ++ [⟨.bar key, w⟩]) slot = rowWritten log slot :=
  List.foldl_concat ..

theorem rowWritten_row (log : List Attempt) (at' slot : Fin visible) (p : Painting) (w : Bool) :
    rowWritten (log ++ [⟨.row at' p, w⟩]) slot =
      if w && at' == slot then p.slot else rowWritten log slot :=
  List.foldl_concat ..

end Reading

section Windows

variable {font : Font} {advance : Char -> Nat} {glyph : Char -> List (Int × Int)}
  {disp : Display} {slot : Fin visible} {p : Painting} {wanted : Option Slot} {d : Slot}

theorem rowPush_win (hfont : font.Typesets advance glyph)
    (hp : paintingOf font wanted d = some p) (ui : Ui) :
    (rowPush font slot p ui).win = windowOf slot p := by
  rcases paintingOf_within hfont hp with ⟨hleft, hlonger, hright⟩
  have hleft' : max p.sx0 0 = p.sx0 := max_eq_left hleft
  have hright' : min p.sx1 (screenW : Int) = p.sx1 := min_eq_left hright
  have hwide : max (p.sx1 - p.sx0) 1 = p.sx1 - p.sx0 := by omega
  unfold rowPush windowOf
  simp only [hleft', hright', hwide]

theorem rowAttempts_windows (hfont : font.Typesets advance glyph) (slots : List (Fin visible))
    (pushed : Nat) (ui : Ui) :
    (rowAttempts font disp slots pushed ui).map (fun a => a.write.window) =
      (rowPushes font disp slots pushed ui).map Push.win := by
  induction slots generalizing pushed ui with
  | nil => rfl
  | cons slot rest ih =>
      unfold rowAttempts rowPushes
      by_cases hfull : pushed ≥ maxPush
      · rw [if_pos hfull, if_pos hfull]
        rfl
      · rw [if_neg hfull, if_neg hfull]
        cases hp : paintingOf font (desiredRow disp slot) (ui.renderer.drawn slot) with
        | none => exact ih pushed ui
        | some p =>
            have hwin : (rowPush font slot p ui).win = windowOf slot p := rowPush_win hfont hp ui
            simp only [List.map_cons, hwin]
            cases paintRow font slot p ui with
            | mk written ui' =>
                cases written with
                | false => rfl
                | true => exact congrArg (List.cons _) (ih (pushed + 1) _)

/-- The log has the windows of the calls of the driver, one by one. -/
theorem tickAttempts_windows (hfont : font.Typesets advance glyph) (input : TickInput)
    (ui : Ui) :
    (tickAttempts font input ui).map (fun a => a.write.window) =
      (tickPushes font input.disp input.clock input.nowMs ui).map Push.win := by
  unfold tickAttempts tickPushes
  split
  · rfl
  · split
    · rfl
    · split
      · rfl
      · unfold frameAttempts framePushes
        simp only
        split
        · rw [List.map_cons]
          cases pushBar font input.disp input.clock input.nowMs ui with
          | mk written ui' =>
              cases written with
              | false => rfl
              | true =>
                  exact congrArg (List.cons _) (rowAttempts_windows hfont _ 1 ui')
        · exact rowAttempts_windows hfont _ 0 ui

end Windows

/-- What the renderer takes to be drawn, and what it has damaged, is in the log. -/
structure Logged (log : List Attempt) (ui : Ui) : Prop where
  barKey_eq : ui.renderer.barKey = (barWritten log).getD (UInt64.size - 1)
  drawn_eq : forall slot, ui.renderer.drawn slot = rowWritten log slot
  torn_eq : forall i j, i < screenW -> j < screenH ->
    (ui.renderer.taken = true ∨ j < ui.renderer.clearRow) ->
      ui.screen.torn i j = damaged log i j
  ahead : ui.renderer.taken = false -> forall i j, ui.renderer.clearRow ≤ j ->
    damaged log i j = false

section Steps

variable {font : Font} {advance : Char -> Nat} {glyph : Char -> List (Int × Int)}
  {P : Display -> Prop} {log : List Attempt} {ui : Ui} {disp : Display} {input : TickInput}

/-! ## One write -/

theorem Logged.of_same (h : Logged log ui) {ui' : Ui}
    (hrenderer : ui'.renderer =
      { ui.renderer with
        startMs := ui'.renderer.startMs
        recoverAt := ui'.renderer.recoverAt })
    (htorn : ui'.screen.torn = ui.screen.torn) : Logged log ui' := by
  constructor
  · rw [hrenderer]
    exact h.barKey_eq
  · rw [hrenderer]
    exact h.drawn_eq
  · rw [hrenderer, htorn]
    exact h.torn_eq
  · rw [hrenderer]
    exact h.ahead

theorem Logged.wrote (h : Logged log ui) (hok : ui.screen.ok = true)
    (htaken : ui.renderer.taken = true) (write : Write) {win : Window} {pixels : Panel}
    (hwin : write.window = win) {r : Renderer} (hkept : r.taken = true)
    (hkey : r.barKey =
      (barWritten (log ++ [⟨write, (ui.screen.push win pixels).1⟩])).getD (UInt64.size - 1))
    (hrows : forall slot, r.drawn slot =
      rowWritten (log ++ [⟨write, (ui.screen.push win pixels).1⟩]) slot) :
    Logged (log ++ [⟨write, (ui.screen.push win pixels).1⟩])
      { renderer := r, screen := (ui.screen.push win pixels).2 } := by
  constructor
  · exact hkey
  · exact hrows
  · intro i j hi hj _
    rw [damaged_snoc, Screen.push_torn hok, h.torn_eq i j hi hj (Or.inl htaken), hwin]
  · intro hfalse
    exact absurd (hfalse.symm.trans hkept) Bool.false_ne_true

theorem clearPush_eq (ui : Ui) :
    ui.screen.pushBand (clearPush ui).win (clearPush ui).bytes =
      ui.screen.push (clearWindow ui.renderer) (fun _ _ => black) := by
  apply Screen.pushBand_eq
  · exact List.length_replicate
  · intro i j _
    exact colorAt_replicate _ _

theorem clearNext_logged (h : Logged log ui) (hagrees : Agrees font P ui)
    (hok : ui.screen.ok = true) (htaken : ui.renderer.taken = false) :
    Logged
      (log ++ [⟨.clear ui.renderer.clearRow,
        (ui.screen.push (clearWindow ui.renderer) (fun _ _ => black)).1⟩])
      (clearNext ui) := by
  have huntouched := hagrees.untouched htaken
  have hcleared := clearNext_cleared hagrees.band
  rcases hcleared.untouched huntouched with ⟨hdrawn, hkey⟩
  have hrow : (clearNext ui).renderer.clearRow =
      ui.renderer.clearRow + min lineH (240 - ui.renderer.clearRow) :=
    hcleared.clearRow
  constructor
  · rw [barWritten_clear, ← h.barKey_eq, hkey, huntouched.barKey_eq]
  · intro slot
    rw [rowWritten_clear, ← h.drawn_eq, hdrawn, huntouched.drawn_eq]
  · intro i j hi hj hbehind
    have hbelow : j < (clearNext ui).renderer.clearRow := by
      by_cases hdone : 240 ≤ (clearNext ui).renderer.clearRow
      · exact Nat.lt_of_lt_of_le hj hdone
      · rcases hbehind with htaken' | hbelow
        · rw [(hcleared.more (Nat.lt_of_not_le hdone)).1, htaken] at htaken'
          cases htaken'
        · exact hbelow
    have hwin : (Write.clear ui.renderer.clearRow).window = clearWindow ui.renderer := rfl
    rw [damaged_snoc, hcleared.screen, Screen.push_torn hok, hwin]
    by_cases hin : (clearWindow ui.renderer).Holds i j
    · rw [if_pos hin, if_pos hin]
    · rw [if_neg hin, if_neg hin]
      apply h.torn_eq i j hi hj (Or.inr ?_)
      unfold Window.Holds clearWindow at hin
      simp only at hin
      omega
  · intro hmore i j hj
    rw [damaged_snoc, if_neg, h.ahead htaken i j (by omega)]
    unfold Write.window Window.Holds
    simp only
    omega

/-! ## One tick -/

theorem drawn_afterPaint (slot slot' : Fin visible) (s : Slot) (written : Bool)
    (r : Renderer) :
    (afterPaint slot s written r).drawn slot' =
      if written && slot == slot' then s else r.drawn slot' := by
  unfold afterPaint
  cases written with
  | false => rfl
  | true =>
      simp only [if_true, Bool.true_and, beq_iff_eq]
      by_cases hsame : slot = slot'
      · rw [if_pos hsame, ← hsame, Function.update_self]
      · rw [if_neg hsame, Function.update_of_ne (Ne.symm hsame)]

theorem drawRows_logged (hfont : font.Typesets advance glyph) (slots : List (Fin visible))
    (pushed : Nat) (h : Logged log ui) (hband : HasBand ui.renderer)
    (hok : ui.screen.ok = true) (htaken : ui.renderer.taken = true) :
    Logged (log ++ rowAttempts font disp slots pushed ui)
      (drawRows font disp slots pushed ui) := by
  induction slots generalizing log pushed ui with
  | nil =>
      unfold rowAttempts
      rw [List.append_nil]
      exact h
  | cons slot rest ih =>
      unfold rowAttempts
      by_cases hfull : pushed ≥ maxPush
      · rw [drawRows_full _ hfull, if_pos hfull, List.append_nil]
        exact h
      · rw [if_neg hfull]
        cases hp : paintingOf font (desiredRow disp slot) (ui.renderer.drawn slot) with
        | none =>
            rw [drawRows_clean rest pushed hp]
            exact ih pushed h hband hok htaken
        | some p =>
            rw [drawRows_painted rest (Nat.lt_of_not_le hfull) hp]
            rcases paintRow_eq font slot hband (paintingOf_within hfont hp) with
              ⟨band, hband', hpaint⟩
            have hlogged : Logged
                (log ++ [⟨.row slot p,
                  (ui.screen.push (windowOf slot p) (slotPanel font slot p.slot)).1⟩])
                { renderer := afterPaint slot p.slot
                    (ui.screen.push (windowOf slot p) (slotPanel font slot p.slot)).1
                    { ui.renderer with band := band }
                  screen :=
                    (ui.screen.push (windowOf slot p) (slotPanel font slot p.slot)).2 } := by
              have hwin : (Write.row slot p).window = windowOf slot p := rfl
              apply h.wrote hok htaken _ hwin
              · unfold afterPaint
                split
                · exact htaken
                · exact htaken
              · rw [barWritten_row, ← h.barKey_eq]
                unfold afterPaint
                split
                · rfl
                · rfl
              · intro slot'
                rw [rowWritten_row, ← h.drawn_eq]
                exact drawn_afterPaint ..
            cases hwritten :
                (ui.screen.push (windowOf slot p) (slotPanel font slot p.slot)).1 with
            | false =>
                rw [hwritten] at hlogged hpaint
                simp only [hpaint]
                exact hlogged
            | true =>
                rw [hwritten] at hlogged hpaint
                have hready := Screen.push_ok hwritten
                simp only [hpaint, if_true]
                rw [← List.singleton_append, ← List.append_assoc]
                exact ih (pushed + 1) hlogged hband' hready htaken

theorem drawFrame_logged (hfont : font.Typesets advance glyph) (h : Logged log ui)
    (hband : HasBand ui.renderer) (hok : ui.screen.ok = true)
    (htaken : ui.renderer.taken = true) :
    Logged (log ++ frameAttempts font input ui)
      (drawFrame font input.disp input.clock input.nowMs ui) := by
  unfold frameAttempts drawFrame
  simp only
  split
  · rcases pushBar_eq font input.disp input.clock input.nowMs hband with ⟨band, hband', hbar⟩
    have hlogged : Logged
        (log ++ [⟨.bar (barKey input.disp input.clock input.nowMs),
          (ui.screen.push barWindow
            (barPicture font input.disp input.clock input.nowMs)).1⟩])
        (pushBar font input.disp input.clock input.nowMs ui).2 := by
      have hwin : (Write.bar (barKey input.disp input.clock input.nowMs)).window =
          barWindow :=
        rfl
      rw [hbar]
      apply h.wrote hok htaken _ hwin
      · exact htaken
      · rw [barWritten_bar]
        simp only
        split
        · rfl
        · exact h.barKey_eq
      · intro slot
        rw [rowWritten_bar]
        exact h.drawn_eq slot
    cases hwritten : (ui.screen.push barWindow
        (barPicture font input.disp input.clock input.nowMs)).1 with
    | false =>
        rw [hwritten] at hlogged hbar
        rw [hbar] at hlogged ⊢
        exact hlogged
    | true =>
        have hready := Screen.push_ok hwritten
        rw [hwritten] at hlogged hbar
        rw [hbar] at hlogged ⊢
        simp only
        rw [← List.singleton_append, ← List.append_assoc]
        exact drawRows_logged hfont _ 1 hlogged hband' hready htaken
  · exact drawRows_logged hfont _ 0 h hband hok htaken

theorem tick_logged (hfont : font.Typesets advance glyph) (h : Logged log ui)
    (hagrees : Agrees font P ui) :
    Logged (log ++ tickAttempts font input ui)
      (tick font input.disp input.clock input.nowMs ui) := by
  unfold tickAttempts Screen.isReady
  rcases tick_cases font input.disp input.clock input.nowMs ui with
    ⟨hok, _, htick⟩ | ⟨hok, _, htick⟩ | ⟨hok, hheld, htick⟩ | ⟨hok, hlive, htaken, htick⟩ |
    ⟨hok, hlive, htaken, htick⟩
  · rw [htick, hok, if_pos Bool.not_false, List.append_nil]
    exact h
  · have hsame := initPanel_same { ui.screen with ok := true }
    rw [htick, hok, if_pos Bool.not_false, List.append_nil]
    exact h.of_same rfl hsame.2
  · rw [htick, hok, if_neg (by decide), if_pos hheld, List.append_nil]
    exact h.of_same rfl rfl
  · rw [htick, hok, htaken, if_neg (by decide), if_neg hlive, if_pos Bool.not_false]
    simp only
    rw [clearPush_eq]
    exact clearNext_logged h hagrees hok htaken
  · rw [htick, hok, htaken, if_neg (by decide), if_neg hlive, if_neg (by decide)]
    exact drawFrame_logged hfont h hagrees.band hok htaken

/-! ## Runs -/

theorem boot_logged (panel : Panel) (outcomes : List Screen.Outcome) :
    Logged [] (boot panel outcomes) := by
  constructor
  · rfl
  · exact fun _ => rfl
  · intro i j _ _ hcleared
    rcases hcleared with hfalse | hnone
    · cases hfalse
    · exact absurd hnone (Nat.not_lt_zero j)
  · exact fun _ _ _ _ => rfl

theorem ticked_logged (hfont : font.Typesets advance glyph) {inputs : List TickInput}
    (hinputs : forall input, input ∈ inputs -> P input.disp) (h : Logged log ui)
    (hagrees : Agrees font P ui) :
    Logged (log ++ attempts font inputs ui) (ticked font inputs ui) ∧
      Agrees font P (ticked font inputs ui) := by
  induction inputs generalizing log ui with
  | nil =>
      unfold attempts
      rw [List.append_nil]
      exact ⟨h, hagrees⟩
  | cons input inputs ih =>
      unfold attempts ticked
      rw [← List.append_assoc]
      rw [List.forall_mem_cons] at hinputs
      exact ih hinputs.2 (tick_logged hfont h hagrees) (tick_agrees hfont hinputs.1 hagrees)

end Steps

/-! ## What failed writes leave -/

end Render

namespace Screen

def Outcome.isFailed : Outcome -> Bool
  | .written => false
  | .failed _ => true

/-- The same transactions fail; they may leave other pixels. -/
def SameFailures (outcomes outcomes' : List Outcome) : Prop :=
  outcomes.map Outcome.isFailed = outcomes'.map Outcome.isFailed

def Outcome.leaving (c : UInt16) : Outcome -> Outcome
  | .written => .written
  | .failed _ => .failed (fun _ _ => c)

/-- Every failed write has left one colour, and so will the coming ones. -/
def leaving (c : UInt16) (s : Screen) : Screen :=
  { s with
    panel := fun i j => if s.torn i j then c else s.panel i j
    outcomes := s.outcomes.map (Outcome.leaving c) }

section Leaving

variable {outcomes outcomes' : List Outcome}

theorem SameFailures.leaving_eq (h : SameFailures outcomes outcomes') (c : UInt16) :
    outcomes.map (Outcome.leaving c) = outcomes'.map (Outcome.leaving c) := by
  have hof : Outcome.leaving c =
      (fun failed => if failed then .failed (fun _ _ => c) else .written) ∘ Outcome.isFailed := by
    funext outcome
    cases outcome with
    | written => rfl
    | failed garbage => rfl
  rw [hof, ← List.map_map, ← List.map_map, h]

theorem sameFailures_leaving (outcomes : List Outcome) (c : UInt16) :
    SameFailures outcomes (outcomes.map (Outcome.leaving c)) := by
  unfold SameFailures
  rw [List.map_map]
  apply List.map_congr_left
  intro outcome _
  cases outcome with
  | written => rfl
  | failed garbage => rfl

theorem transact_leaving (c : UInt16) (win : Window) (pixels : Panel) (s : Screen) :
    transact win pixels (s.leaving c) =
      ((transact win pixels s).1, (transact win pixels s).2.leaving c) := by
  have hfailed : forall garbage : Panel,
      paste win (fun _ _ => c) (fun i j => if s.torn i j then c else s.panel i j) =
        fun i j =>
          if s.torn i j || decide (win.Holds i j) then c else paste win garbage s.panel i j := by
    intro garbage
    funext i j
    unfold paste
    by_cases hin : win.Holds i j
    · simp [hin]
    · simp [hin]
  have hwritten : paste win pixels (fun i j => if s.torn i j then c else s.panel i j) =
      fun i j =>
        if s.torn i j && !decide (win.Holds i j) then c else paste win pixels s.panel i j := by
    funext i j
    unfold paste
    by_cases hin : win.Holds i j
    · simp [hin]
    · simp [hin]
  unfold transact leaving
  cases houtcomes : s.outcomes with
  | nil =>
      simp only [List.map_nil, hwritten]
      rfl
  | cons outcome rest =>
      cases outcome with
      | written =>
          simp only [List.map_cons, Outcome.leaving, hwritten]
          rfl
      | failed garbage => simp only [List.map_cons, Outcome.leaving, hfailed garbage]

theorem pushBand_leaving (c : UInt16) (win : Window) (bytes : List UInt8) (s : Screen) :
    pushBand win bytes (s.leaving c) =
      ((pushBand win bytes s).1, (pushBand win bytes s).2.leaving c) := by
  have hok : (s.leaving c).ok = s.ok := rfl
  unfold pushBand
  rw [hok, transact_leaving]
  split
  · rfl
  · split
    · rfl
    · rfl

theorem fillArea_leaving (c : UInt16) (win : Window) (color : UInt16) (s : Screen) :
    fillArea win color (s.leaving c) =
      ((fillArea win color s).1, (fillArea win color s).2.leaving c) := by
  have hok : (s.leaving c).ok = s.ok := rfl
  unfold fillArea
  rw [hok, transact_leaving]
  split
  · rfl
  · split
    · rfl
    · rfl

theorem initPanel_leaving (c : UInt16) (s : Screen) :
    initPanel (s.leaving c) = (initPanel s).leaving c := by
  rcases s with ⟨ok, panel, outcomes, pushes, torn⟩
  cases outcomes with
  | nil => rfl
  | cons outcome rest =>
      cases outcome with
      | written => rfl
      | failed garbage => rfl

theorem tryRecover_leaving (c : UInt16) (s : Screen) :
    tryRecover (s.leaving c) = (tryRecover s).leaving c :=
  initPanel_leaving c { s with ok := true }

theorem selfTestBars_leaving (c : UInt16) (s : Screen) :
    selfTestBars (s.leaving c) = (selfTestBars s).leaving c := by
  have hok : (s.leaving c).ok = s.ok := rfl
  have hbars : forall (bars : List (Window × UInt16)) (s : Screen),
      bars.foldl (fun s bar => (s.fillArea bar.1 bar.2).2) (s.leaving c) =
        (bars.foldl (fun s bar => (s.fillArea bar.1 bar.2).2) s).leaving c := by
    intro bars
    induction bars with
    | nil => exact fun _ => rfl
    | cons bar bars ih =>
        intro s
        rw [List.foldl_cons, List.foldl_cons, fillArea_leaving]
        exact ih _
  unfold selfTestBars
  rw [hok]
  split
  · rfl
  · exact hbars testBars s

end Leaving

end Screen

def Ui.leaving (c : UInt16) (ui : Ui) : Ui :=
  { ui with screen := ui.screen.leaving c }

namespace Render

section Leaving

variable {font : Font} {disp : Display} {input : TickInput}

theorem boot_leaving (c : UInt16) (panel : Panel) (outcomes : List Screen.Outcome) :
    boot panel (outcomes.map (Screen.Outcome.leaving c)) = (boot panel outcomes).leaving c := by
  have hnew : Screen.new panel (outcomes.map (Screen.Outcome.leaving c)) =
      (Screen.new panel outcomes).leaving c :=
    Screen.initPanel_leaving c
      { ok := true
        panel := panel
        outcomes := outcomes
        pushes := 0
        torn := fun _ _ => false }
  unfold boot Ui.leaving
  rw [hnew, Screen.selfTestBars_leaving]

theorem paintRow_leaving (c : UInt16) (slot : Fin visible) (p : Painting) (ui : Ui) :
    paintRow font slot p (ui.leaving c) =
      ((paintRow font slot p ui).1, (paintRow font slot p ui).2.leaving c) := by
  unfold paintRow Ui.leaving
  simp only [Screen.pushBand_leaving]

theorem pushBar_leaving (c : UInt16) (input : TickInput) (ui : Ui) :
    pushBar font input.disp input.clock input.nowMs (ui.leaving c) =
      ((pushBar font input.disp input.clock input.nowMs ui).1,
        (pushBar font input.disp input.clock input.nowMs ui).2.leaving c) := by
  unfold pushBar Ui.leaving
  simp only [Screen.pushBand_leaving]
  split
  · rfl
  · rfl

theorem clearNext_leaving (c : UInt16) (ui : Ui) :
    clearNext (ui.leaving c) = (clearNext ui).leaving c := by
  unfold clearNext Ui.leaving
  simp only [Screen.pushBand_leaving]
  split
  · rfl
  · rfl

theorem drawRows_leaving (c : UInt16) (slots : List (Fin visible)) (pushed : Nat) (ui : Ui) :
    drawRows font disp slots pushed (ui.leaving c) =
        (drawRows font disp slots pushed ui).leaving c ∧
      rowAttempts font disp slots pushed (ui.leaving c) =
        rowAttempts font disp slots pushed ui := by
  induction slots generalizing pushed ui with
  | nil => exact ⟨rfl, rfl⟩
  | cons slot rest ih =>
      have hdrawn : (ui.leaving c).renderer.drawn = ui.renderer.drawn := rfl
      unfold drawRows rowAttempts
      rw [hdrawn]
      by_cases hfull : pushed ≥ maxPush
      · simp only [if_pos hfull]
        exact ⟨trivial, trivial⟩
      · simp only [if_neg hfull]
        cases paintingOf font (desiredRow disp slot) (ui.renderer.drawn slot) with
        | none => exact ih pushed ui
        | some p =>
            simp only [paintRow_leaving]
            cases paintRow font slot p ui with
            | mk written ui' =>
                cases written with
                | false => exact ⟨rfl, rfl⟩
                | true =>
                    rcases ih (pushed + 1)
                      { ui' with
                        renderer :=
                          { ui'.renderer with
                            drawn := Function.update ui'.renderer.drawn slot p.slot } } with
                      ⟨hrows, htries⟩
                    exact ⟨hrows, congrArg (List.cons _) htries⟩

theorem drawFrame_leaving (c : UInt16) (input : TickInput) (ui : Ui) :
    drawFrame font input.disp input.clock input.nowMs (ui.leaving c) =
        (drawFrame font input.disp input.clock input.nowMs ui).leaving c ∧
      frameAttempts font input (ui.leaving c) = frameAttempts font input ui := by
  have hbar : (ui.leaving c).renderer.barKey = ui.renderer.barKey := rfl
  unfold drawFrame frameAttempts
  simp only [hbar, pushBar_leaving]
  split
  · cases pushBar font input.disp input.clock input.nowMs ui with
    | mk written ui' =>
        cases written with
        | false => exact ⟨rfl, rfl⟩
        | true =>
            rcases drawRows_leaving c (List.finRange visible) 1 ui' with ⟨hrows, htries⟩
            exact ⟨hrows, congrArg (List.cons _) htries⟩
  · exact drawRows_leaving c (List.finRange visible) 0 ui

theorem tick_leaving (c : UInt16) (input : TickInput) (ui : Ui) :
    tick font input.disp input.clock input.nowMs (ui.leaving c) =
        (tick font input.disp input.clock input.nowMs ui).leaving c ∧
      tickAttempts font input (ui.leaving c) = tickAttempts font input ui := by
  have hrenderer : (ui.leaving c).renderer = ui.renderer := rfl
  have hclear : clearPush (ui.leaving c) = clearPush ui := rfl
  have hpush : forall win bytes, ((ui.leaving c).screen.pushBand win bytes).1 =
      (ui.screen.pushBand win bytes).1 := by
    intro win bytes
    unfold Ui.leaving
    rw [Screen.pushBand_leaving]
  cases hok : ui.screen.ok with
  | false =>
      have hok' : (ui.leaving c).screen.ok = false := hok
      have hrecover : (ui.leaving c).screen.tryRecover = ui.screen.tryRecover.leaving c :=
        Screen.tryRecover_leaving c ui.screen
      unfold tick tickAttempts Screen.isReady
      simp only [hok, hok', hrenderer, hrecover, Bool.not_false, if_true, and_true]
      split
      · rfl
      · rfl
  | true =>
      have hok' : (ui.leaving c).screen.ok = true := hok
      rw [tick_ready font _ _ _ hok, tick_ready font _ _ _ hok', hrenderer]
      unfold tickAttempts Screen.isReady
      simp only [hok, hok', hrenderer, hclear, hpush, Bool.not_true, Bool.false_eq_true,
        if_false]
      by_cases hheld : Held input.nowMs ui.renderer
      · simp only [if_pos hheld, and_true]
        rfl
      · simp only [if_neg hheld]
        cases ui.renderer.taken with
        | false => exact ⟨clearNext_leaving c ui, rfl⟩
        | true => exact drawFrame_leaving c input ui

theorem ticked_leaving (font : Font) (c : UInt16) (inputs : List TickInput) (ui : Ui) :
    ticked font inputs (ui.leaving c) = (ticked font inputs ui).leaving c ∧
      attempts font inputs (ui.leaving c) = attempts font inputs ui := by
  induction inputs generalizing ui with
  | nil => exact ⟨rfl, rfl⟩
  | cons input inputs ih =>
      rcases tick_leaving c input ui with ⟨htick, htries⟩
      unfold ticked attempts
      rw [htick, htries, (ih _).1, (ih _).2]
      exact ⟨rfl, rfl⟩

/-- What failed writes leave decides nothing but colours. -/
theorem ticked_same {outcomes outcomes' : List Screen.Outcome}
    (h : Screen.SameFailures outcomes outcomes') (inputs : List TickInput) (panel : Panel) :
    (ticked font inputs (boot panel outcomes)).leaving 0 =
        (ticked font inputs (boot panel outcomes')).leaving 0 ∧
      attempts font inputs (boot panel outcomes) =
        attempts font inputs (boot panel outcomes') := by
  have hleft := ticked_leaving font 0 inputs (boot panel outcomes)
  have hright := ticked_leaving font 0 inputs (boot panel outcomes')
  rw [← boot_leaving] at hleft hright
  rw [h.leaving_eq] at hleft
  exact ⟨hleft.1.symm.trans hright.1, hleft.2.symm.trans hright.2⟩

end Leaving

end Render
end TWA
