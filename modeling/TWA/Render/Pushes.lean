import TWA.Render.SevenTicks

/-!
# The rectangles that are sent

What a tick asks of the driver is written down as a list of calls, and the screen after
the tick is the one that these calls lead to.  Each rectangle lies on the screen, has
pixels, and comes with just the bytes that it needs, so the driver never turns one
down.
-/

namespace TWA

open Foundation
open Foundation.Pixels
open Screen (screenW screenH)

namespace Render

structure Push where
  win : Window
  bytes : List UInt8
  deriving DecidableEq, Repr

structure Push.Legal (push : Push) : Prop where
  w_pos : 1 ≤ push.win.w
  h_pos : 1 ≤ push.win.h
  right_le : push.win.x + push.win.w ≤ screenW
  bottom_le : push.win.y + push.win.h ≤ screenH
  length_eq : push.bytes.length = 2 * push.win.w * push.win.h
  /-- The bytes are a part of the scratch space. -/
  fits : push.bytes.length ≤ screenW * barH * 2

def send (s : Screen) (push : Push) : Screen :=
  (s.pushBand push.win push.bytes).2

/-! ## The calls of a tick -/

def rowPush (font : Font) (slot : Fin visible) (p : Painting) (ui : Ui) : Push :=
  let sx0 := max p.sx0 0
  let sx1 := min p.sx1 screenW
  let w := (max (sx1 - sx0) 1).toNat
  { win := ⟨sx0.toNat, rowTop slot, w, lineH⟩
    bytes := rowBand font p.slot sx0 w (ui.renderer.band.take (w * lineH * 2)) }

def barPush (font : Font) (disp : Display) (clock : Ntp.Clock) (nowMs : UInt32) (ui : Ui) :
    Push :=
  { win := ⟨0, 0, screenW, barH⟩
    bytes := barBand font disp clock nowMs (ui.renderer.band.take (screenW * barH * 2)) }

def clearPush (ui : Ui) : Push :=
  let h := min lineH (240 - ui.renderer.clearRow)
  { win := ⟨0, ui.renderer.clearRow, screenW, h⟩
    bytes := List.replicate (screenW * h * 2) 0 }

/-- The calls of the loop over the rows; it ends with a call that fails. -/
def rowPushes (font : Font) (disp : Display) : List (Fin visible) -> Nat -> Ui -> List Push
  | [], _, _ => []
  | slot :: rest, pushed, ui =>
      if pushed ≥ maxPush then
        []
      else
        match paintingOf font (desiredRow disp slot) (ui.renderer.drawn slot) with
        | none => rowPushes font disp rest pushed ui
        | some p =>
            rowPush font slot p ui ::
              match paintRow font slot p ui with
              | (false, _) => []
              | (true, ui) =>
                  let drawn := Function.update ui.renderer.drawn slot p.slot
                  rowPushes font disp rest (pushed + 1)
                    { ui with renderer := { ui.renderer with drawn := drawn } }

def framePushes (font : Font) (disp : Display) (clock : Ntp.Clock) (nowMs : UInt32) (ui : Ui) :
    List Push :=
  if ui.renderer.barKey != barKey disp clock nowMs then
    barPush font disp clock nowMs ui ::
      match pushBar font disp clock nowMs ui with
      | (false, _) => []
      | (true, ui) => rowPushes font disp (List.finRange visible) 1 ui
  else
    rowPushes font disp (List.finRange visible) 0 ui

def tickPushes (font : Font) (disp : Display) (clock : Ntp.Clock) (nowMs : UInt32) (ui : Ui) :
    List Push :=
  if !ui.screen.isReady then
    []
  else if Held nowMs ui.renderer then
    []
  else if !ui.renderer.taken then
    [clearPush ui]
  else
    framePushes font disp clock nowMs ui

/-- A renderer that can draw: it has its scratch space, and pixel rows to clear until the
screen is taken over. -/
structure Drawable (r : Renderer) : Prop where
  band : HasBand r
  clearing : r.taken = false -> r.clearRow < 240

section Calls

variable {font : Font} {slot : Fin visible} {p : Painting} {wanted : Option Slot} {d : Slot}
  {disp : Display} {clock : Ntp.Clock} {nowMs : UInt32} {ui : Ui} {push : Push} {s : Screen}

theorem paintRow_push (font : Font) (slot : Fin visible) (p : Painting) (ui : Ui) :
    paintRow font slot p ui =
      ((ui.screen.pushBand (rowPush font slot p ui).win (rowPush font slot p ui).bytes).1,
        { renderer :=
            { ui.renderer with
              band := splice ui.renderer.band 0 (rowPush font slot p ui).bytes }
          screen := send ui.screen (rowPush font slot p ui) }) :=
  rfl

theorem pushBar_push (font : Font) (disp : Display) (clock : Ntp.Clock) (nowMs : UInt32)
    (ui : Ui) :
    exists key, pushBar font disp clock nowMs ui =
      ((ui.screen.pushBand (barPush font disp clock nowMs ui).win
          (barPush font disp clock nowMs ui).bytes).1,
        { renderer :=
            { ui.renderer with
              band := splice ui.renderer.band 0 (barPush font disp clock nowMs ui).bytes
              drawn := ui.renderer.drawn
              barKey := key }
          screen := send ui.screen (barPush font disp clock nowMs ui) }) := by
  unfold pushBar send barPush
  simp only
  split
  · rename_i hwritten
    exact ⟨barKey disp clock nowMs, by rw [hwritten]⟩
  · rename_i hfailed
    exact ⟨ui.renderer.barKey, by rw [Bool.eq_false_iff.mpr hfailed]⟩

theorem clearNext_screen (ui : Ui) :
    (clearNext ui).screen = send ui.screen (clearPush ui) := by
  unfold clearNext
  simp only
  split <;> rfl

/-! ## Legal calls -/

theorem Push.Legal.pushBand_eq (h : push.Legal) (s : Screen) :
    s.pushBand push.win push.bytes = s.push push.win (bandPixels push.win push.bytes) := by
  refine Screen.pushBand_eq s ?_ (fun _ _ _ => rfl)
  rw [h.length_eq, Nat.mul_assoc, Nat.mul_comm]

theorem Push.Legal.written_iff (h : push.Legal) (hok : s.ok = true) :
    (s.pushBand push.win push.bytes).1 = true <-> ¬s.Fails := by
  rw [h.pushBand_eq]
  constructor
  · intro hwritten hfails
    rcases Screen.push_of_fails push.win (bandPixels push.win push.bytes) hok hfails with
      ⟨_, _, _, hpush⟩
    rw [hpush] at hwritten
    cases hwritten
  · intro hworks
    rw [Screen.push_of_not_fails hok hworks]

theorem Push.Legal.send_ok (h : push.Legal)
    (hwritten : (s.pushBand push.win push.bytes).1 = true) : (send s push).ok = true := by
  unfold send
  rw [h.pushBand_eq] at hwritten ⊢
  exact Screen.push_ok hwritten

theorem Push.Legal.send_pushes (h : push.Legal) (hok : s.ok = true) :
    (send s push).pushes = s.pushes + 1 := by
  unfold send
  rw [h.pushBand_eq]
  by_cases hfails : s.Fails
  · rcases Screen.push_of_fails push.win (bandPixels push.win push.bytes) hok hfails with
      ⟨_, _, _, hpush⟩
    rw [hpush]
  · rw [Screen.push_of_not_fails hok hfails]
    rfl

theorem Push.legal_of_low (hw : 1 ≤ push.win.w) (hh : 1 ≤ push.win.h)
    (hright : push.win.x + push.win.w ≤ screenW) (hbottom : push.win.y + push.win.h ≤ screenH)
    (hlen : push.bytes.length = push.win.w * push.win.h * 2) (hlow : push.win.h ≤ barH) :
    push.Legal := by
  refine ⟨hw, hh, hright, hbottom, ?_, ?_⟩
  · rw [hlen, Nat.mul_comm, Nat.mul_assoc]
  · have harea : push.win.w * push.win.h ≤ screenW * barH :=
      Nat.mul_le_mul (by omega) hlow
    omega

theorem paintingOf_edges (h : paintingOf font wanted d = some p) :
    (p.sx0 = 0 ∧ p.sx1 = screenW) ∨
      (p.sx0 < p.sx1 ∧ p.sx1 ≤ textX + Display.subW) := by
  unfold paintingOf at h
  cases wanted with
  | none =>
      simp only at h
      split at h
      · cases h
      · cases h
        exact Or.inl ⟨rfl, rfl⟩
  | some wanted =>
      simp only at h
      split at h
      · cases h
      · split at h
        · rename_i hextend
          cases h
          rcases canExtend_iff.mp hextend with ⟨_, _, _, _, _, hlonger, hfits⟩
          refine Or.inr ⟨?_, ?_⟩
          · exact Int.add_lt_add_left hlonger textX
          · exact Int.add_le_add_left hfits textX
        · cases h
          exact Or.inl ⟨rfl, rfl⟩

theorem rowPush_legal (slot : Fin visible) (ui : Ui) (hband : HasBand ui.renderer)
    (h : paintingOf font wanted d = some p) : (rowPush font slot p ui).Legal := by
  have hedges : (max p.sx0 0).toNat + (max (min p.sx1 screenW - max p.sx0 0) 1).toNat ≤
      screenW := by
    have hright : textX + Display.subW = 236 := rfl
    unfold screenW
    rcases paintingOf_edges h with ⟨hleft, hwhole⟩ | ⟨hlonger, hfits⟩
    · rw [hleft, hwhole]
      decide
    · omega
  have hslot : slot.val < 12 := slot.isLt
  have hroom : (max (min p.sx1 screenW - max p.sx0 0) 1).toNat * lineH * 2 ≤
      ui.renderer.band.length := by
    unfold HasBand at hband
    rw [hband]
    unfold lineH barH
    omega
  refine Push.legal_of_low ?_ ?_ hedges ?_ ?_ ?_
  · change 1 ≤ (max (min p.sx1 screenW - max p.sx0 0) 1).toNat
    omega
  · change 1 ≤ lineH
    decide
  · change subY + slot.val * lineH + lineH ≤ screenH
    unfold subY lineH screenH
    omega
  · unfold rowPush
    simp only
    exact length_rowBand font p.slot _ (by rw [List.length_take]; omega)
  · change lineH ≤ barH
    decide

theorem barPush_legal (font : Font) (disp : Display) (clock : Ntp.Clock) (nowMs : UInt32)
    (hband : HasBand ui.renderer) : (barPush font disp clock nowMs ui).Legal := by
  have hwide : 1 ≤ screenW := by decide
  have hhigh : 1 ≤ barH := by decide
  have hright : 0 + screenW ≤ screenW := by decide
  have hbottom : 0 + barH ≤ screenH := by decide
  refine Push.legal_of_low hwide hhigh hright hbottom ?_ (Nat.le_refl barH)
  have hlen : (ui.renderer.band.take (screenW * barH * 2)).length = 2 * (screenW * barH) := by
    unfold HasBand at hband
    rw [List.length_take, hband, Nat.min_self, Nat.mul_comm]
  unfold barPush
  simp only
  rw [length_barBand, fillColor_eq hlen, length_solid, Nat.mul_comm]

theorem clearPush_legal (h : ui.renderer.clearRow < 240) : (clearPush ui).Legal := by
  have hwide : 1 ≤ screenW := by decide
  have hright : 0 + screenW ≤ screenW := by decide
  unfold clearPush
  refine Push.legal_of_low hwide ?_ hright ?_ List.length_replicate ?_
  · unfold lineH
    simp only
    omega
  · unfold lineH screenH
    simp only
    omega
  · unfold lineH barH
    simp only
    omega

theorem Push.Legal.drawable (h : push.Legal) {r : Renderer} (hdraws : Drawable r)
    (drawn : Fin visible -> Slot) (key : Nat) :
    Drawable { r with band := splice r.band 0 push.bytes, drawn := drawn, barKey := key } := by
  have hband := hdraws.band
  have hfits := h.fits
  have hlen : (splice r.band 0 push.bytes).length = r.band.length := by
    apply length_splice
    rw [hband]
    omega
  exact ⟨hlen.trans hband, hdraws.clearing⟩

theorem clearNext_drawable (hdraws : Drawable ui.renderer) :
    Drawable (clearNext ui).renderer := by
  have hcleared := clearNext_cleared hdraws.band
  refine ⟨hcleared.band, fun hmore => ?_⟩
  by_cases hdone : 240 ≤ (clearNext ui).renderer.clearRow
  · rw [(hcleared.done hdone).1] at hmore
    cases hmore
  · exact Nat.lt_of_not_le hdone

/-! ## Sending them -/

/-- Legal calls that lead from one screen to another, each of them a transaction with the
panel. -/
structure Sent (calls : List Push) (s s' : Screen) : Prop where
  legal : forall push, push ∈ calls -> push.Legal
  screen_eq : s' = calls.foldl send s
  pushes_eq : s'.pushes = s.pushes + calls.length

theorem Sent.nil (s : Screen) : Sent [] s s :=
  ⟨fun _ h => (List.not_mem_nil h).elim, rfl, rfl⟩

theorem Sent.cons {calls : List Push} {s' : Screen} (hlegal : push.Legal) (hok : s.ok = true)
    (h : Sent calls (send s push) s') : Sent (push :: calls) s s' := by
  refine ⟨fun p hp => ?_, h.screen_eq, ?_⟩
  · rcases List.mem_cons.mp hp with rfl | hrest
    · exact hlegal
    · exact h.legal p hrest
  · rw [h.pushes_eq, hlegal.send_pushes hok, List.length_cons]
    omega

theorem rowPushes_sent (slots : List (Fin visible)) (pushed : Nat) (ui : Ui)
    (hdraws : Drawable ui.renderer) (hok : ui.screen.ok = true) :
    Sent (rowPushes font disp slots pushed ui) ui.screen
      (drawRows font disp slots pushed ui).screen ∧
      Drawable (drawRows font disp slots pushed ui).renderer := by
  induction slots generalizing pushed ui with
  | nil => exact ⟨Sent.nil _, hdraws⟩
  | cons slot rest ih =>
      unfold rowPushes drawRows
      by_cases hfull : pushed ≥ maxPush
      · rw [if_pos hfull, if_pos hfull]
        exact ⟨Sent.nil _, hdraws⟩
      · rw [if_neg hfull, if_neg hfull]
        cases hp : paintingOf font (desiredRow disp slot) (ui.renderer.drawn slot) with
        | none => exact ih pushed ui hdraws hok
        | some p =>
            have hlegal := rowPush_legal slot ui hdraws.band hp
            have hpaint := paintRow_push font slot p ui
            cases hwritten :
                (ui.screen.pushBand (rowPush font slot p ui).win
                  (rowPush font slot p ui).bytes).1 with
            | false =>
                rw [hwritten] at hpaint
                simp only [hpaint]
                exact ⟨(Sent.nil _).cons hlegal hok,
                  hlegal.drawable hdraws ui.renderer.drawn ui.renderer.barKey⟩
            | true =>
                have hdraws' := hlegal.drawable hdraws
                  (Function.update ui.renderer.drawn slot p.slot) ui.renderer.barKey
                rw [hwritten] at hpaint
                simp only [hpaint]
                rcases ih (pushed + 1) ⟨_, send ui.screen (rowPush font slot p ui)⟩ hdraws'
                  (hlegal.send_ok hwritten) with ⟨hsent, hrest⟩
                exact ⟨hsent.cons hlegal hok, hrest⟩

theorem framePushes_sent (disp : Display) (clock : Ntp.Clock) (nowMs : UInt32)
    (hdraws : Drawable ui.renderer) (hok : ui.screen.ok = true) :
    Sent (framePushes font disp clock nowMs ui) ui.screen
      (drawFrame font disp clock nowMs ui).screen ∧
      Drawable (drawFrame font disp clock nowMs ui).renderer := by
  unfold framePushes drawFrame
  split
  · have hlegal := barPush_legal font disp clock nowMs hdraws.band
    rcases pushBar_push font disp clock nowMs ui with ⟨key, hpush⟩
    have hdraws' := hlegal.drawable hdraws ui.renderer.drawn key
    cases hwritten : (ui.screen.pushBand (barPush font disp clock nowMs ui).win
        (barPush font disp clock nowMs ui).bytes).1 with
    | false =>
        rw [hwritten] at hpush
        rw [hpush]
        exact ⟨(Sent.nil _).cons hlegal hok, hdraws'⟩
    | true =>
        rw [hwritten] at hpush
        rw [hpush]
        rcases rowPushes_sent (List.finRange visible) 1
          ⟨_, send ui.screen (barPush font disp clock nowMs ui)⟩ hdraws'
          (hlegal.send_ok hwritten) with ⟨hsent, hrest⟩
        exact ⟨hsent.cons hlegal hok, hrest⟩
  · exact rowPushes_sent (List.finRange visible) 0 ui hdraws hok

/-- A tick with a ready panel does to the screen what its calls do, all of them legal. -/
theorem tickPushes_sent (font : Font) (disp : Display) (clock : Ntp.Clock) (nowMs : UInt32)
    (hdraws : Drawable ui.renderer) (hok : ui.screen.ok = true) :
    Sent (tickPushes font disp clock nowMs ui) ui.screen
      (tick font disp clock nowMs ui).screen ∧
      Drawable (tick font disp clock nowMs ui).renderer := by
  rw [tick_ready font disp clock nowMs hok]
  unfold tickPushes Screen.isReady
  rw [hok, if_neg (by simp)]
  by_cases hheld : Held nowMs ui.renderer
  · rw [if_pos hheld, if_pos hheld]
    exact ⟨Sent.nil _, hdraws.band, hdraws.clearing⟩
  · rw [if_neg hheld, if_neg hheld]
    cases htaken : ui.renderer.taken with
    | false =>
        have hlegal := clearPush_legal (hdraws.clearing htaken)
        rw [if_pos (by simp), if_neg (by simp)]
        refine ⟨Sent.cons hlegal hok ?_, clearNext_drawable hdraws⟩
        rw [clearNext_screen]
        exact Sent.nil _
    | true =>
        rw [if_neg (by simp), if_pos rfl]
        exact framePushes_sent disp clock nowMs hdraws hok

theorem step_drawable {input : TickInput} {ui' : Ui} (hdraws : Drawable ui.renderer)
    (hstep : step font input ui ui') : Drawable ui'.renderer := by
  rw [hstep]
  cases hok : ui.screen.ok with
  | true => exact (tickPushes_sent font input.disp input.clock input.nowMs hdraws hok).2
  | false =>
      rcases tick_cases font input.disp input.clock input.nowMs ui with
        ⟨_, _, htick⟩ | ⟨_, _, htick⟩ | ⟨hready, _⟩ | ⟨hready, _⟩ | ⟨hready, _⟩
      · rw [htick]
        exact hdraws
      · rw [htick]
        exact ⟨hdraws.band, hdraws.clearing⟩
      · cases hok.symm.trans hready
      · cases hok.symm.trans hready
      · cases hok.symm.trans hready

/-! ## While writes succeed -/

theorem Push.Legal.written (h : push.Legal) (hwritable : Writable s) :
    (s.pushBand push.win push.bytes).1 = true ∧ Writable (send s push) := by
  unfold send
  rw [h.pushBand_eq, push_of_writable hwritable]
  exact ⟨rfl, hwritable.afterWrite _ _⟩

variable (font disp) in
theorem rowPushes_length (slots : List (Fin visible)) (hnodup : slots.Nodup) (pushed : Nat)
    (ui : Ui) (hdraws : Drawable ui.renderer) (hwritable : Writable ui.screen) :
    (rowPushes font disp slots pushed ui).length =
      min (maxPush - pushed) (dirtyIn font disp slots ui.renderer.drawn) := by
  induction slots generalizing pushed ui with
  | nil => exact (Nat.min_zero _).symm
  | cons slot rest ih =>
      rw [List.nodup_cons] at hnodup
      unfold rowPushes
      by_cases hfull : pushed ≥ maxPush
      · rw [if_pos hfull, Nat.sub_eq_zero_of_le hfull, Nat.zero_min]
        rfl
      · rw [if_neg hfull, dirtyIn_cons]
        cases hp : paintingOf font (desiredRow disp slot) (ui.renderer.drawn slot) with
        | none => exact ih hnodup.2 pushed ui hdraws hwritable
        | some p =>
            have hlegal := rowPush_legal slot ui hdraws.band hp
            have hwritten := hlegal.written hwritable
            have hdraws' := hlegal.drawable hdraws
              (Function.update ui.renderer.drawn slot p.slot) ui.renderer.barKey
            have hrest := ih hnodup.2 (pushed + 1) ⟨_, send ui.screen (rowPush font slot p ui)⟩
              hdraws' hwritten.2
            have hsame : dirtyIn font disp rest (Function.update ui.renderer.drawn slot p.slot) =
                dirtyIn font disp rest ui.renderer.drawn := by
              apply dirtyIn_congr
              intro slot' hmem
              apply Function.update_of_ne
              intro heq
              exact hnodup.1 (heq ▸ hmem)
            simp only [paintRow_push, hwritten.1]
            rw [List.length_cons, hrest, hsame, Option.isSome_some, if_pos rfl]
            omega

theorem tickPushes_length (font : Font) (disp : Display) (clock : Ntp.Clock) (nowMs : UInt32)
    (hdraws : Drawable ui.renderer) (hwritable : Writable ui.screen)
    (htaken : ui.renderer.taken = true) (hheld : ¬Held nowMs ui.renderer) :
    (tickPushes font disp clock nowMs ui).length =
      min maxPush (pending font disp (barKey disp clock nowMs) ui.renderer) := by
  have hslots : (List.finRange visible).Nodup := List.nodup_finRange visible
  unfold tickPushes Screen.isReady framePushes pending
  rw [hwritable.1, htaken, if_neg (by simp), if_neg hheld, if_neg (by simp)]
  by_cases hkey : ui.renderer.barKey = barKey disp clock nowMs
  · rw [if_neg (by simp [hkey]), if_pos hkey,
      rowPushes_length font disp _ hslots 0 ui hdraws hwritable, Nat.zero_add]
    rfl
  · have hlegal := barPush_legal font disp clock nowMs hdraws.band
    have hwritten := hlegal.written hwritable
    rcases pushBar_push font disp clock nowMs ui with ⟨key, hpush⟩
    have hrest := rowPushes_length font disp _ hslots 1
      ⟨_, send ui.screen (barPush font disp clock nowMs ui)⟩
      (hlegal.drawable hdraws ui.renderer.drawn key) hwritten.2
    change _ = min (maxPush - 1) (dirtyIn font disp (List.finRange visible) ui.renderer.drawn)
      at hrest
    rw [hwritten.1] at hpush
    rw [if_pos (by simp [hkey]), if_neg hkey, hpush, List.length_cons]
    simp only
    rw [hrest]
    unfold maxPush
    omega

theorem boot_drawable (panel : Panel) (outcomes : List Screen.Outcome) :
    Drawable (boot panel outcomes).renderer :=
  ⟨List.length_replicate, fun _ => Nat.zero_lt_succ 239⟩

theorem tickPushes_legal (font : Font) (disp : Display) (clock : Ntp.Clock) (nowMs : UInt32)
    (hdraws : Drawable ui.renderer) :
    forall push, push ∈ tickPushes font disp clock nowMs ui -> push.Legal := by
  cases hok : ui.screen.ok with
  | true => exact (tickPushes_sent font disp clock nowMs hdraws hok).1.legal
  | false =>
      intro push hpush
      unfold tickPushes Screen.isReady at hpush
      rw [hok, if_pos (by simp)] at hpush
      cases hpush

end Calls

/-- In every run from boot the renderer can draw.  A renderer that can draw, with any
snapshots, makes legal calls only, which the driver turns down just if the transaction with
the panel fails; a tick with a ready panel does to the screen what its calls do; and while
writes succeed it sends all that is left, or two bands of it. -/
theorem pushes_are_legal (font : Font) :
    (forall panel outcomes inputs ui, Run (step font) (boot panel outcomes) inputs ui ->
      Drawable ui.renderer) ∧
    forall (ui : Ui) (disp : Display) (clock : Ntp.Clock) (nowMs : UInt32),
      Drawable ui.renderer ->
        (forall push, push ∈ tickPushes font disp clock nowMs ui ->
          push.Legal ∧ push.bytes.length ≤ ui.renderer.band.length ∧
            forall s : Screen, s.ok = true ->
              ((s.pushBand push.win push.bytes).1 = true <-> ¬s.Fails)) ∧
        (ui.screen.ok = true ->
          (tick font disp clock nowMs ui).screen =
              (tickPushes font disp clock nowMs ui).foldl send ui.screen ∧
            (tick font disp clock nowMs ui).screen.pushes =
              ui.screen.pushes + (tickPushes font disp clock nowMs ui).length) ∧
        (Writable ui.screen -> ui.renderer.taken = true -> ¬Held nowMs ui.renderer ->
          (tickPushes font disp clock nowMs ui).length =
            min maxPush (pending font disp (barKey disp clock nowMs) ui.renderer)) := by
  constructor
  · intro panel outcomes inputs ui hrun
    apply hrun.invariant
    · intro _ _ _ hdraws hstep
      exact step_drawable hdraws hstep
    · exact boot_drawable panel outcomes
  · intro ui disp clock nowMs hdraws
    refine ⟨fun push hpush => ?_, fun hok => ?_, tickPushes_length font disp clock nowMs hdraws⟩
    · have hlegal := tickPushes_legal font disp clock nowMs hdraws push hpush
      refine ⟨hlegal, ?_, fun s => hlegal.written_iff⟩
      have hband := hdraws.band
      unfold HasBand at hband
      rw [hband]
      exact hlegal.fits
    · have hsent := (tickPushes_sent font disp clock nowMs hdraws hok).1
      exact ⟨hsent.screen_eq, hsent.pushes_eq⟩

def takenOver : Ui :=
  { renderer := { Renderer.new with taken := true, startMs := 1 }
    screen :=
      { ok := true
        panel := fun _ _ => black
        outcomes := []
        pushes := 14
        torn := fun _ _ => false } }

/-- The bar and the first row are sent in one tick. -/
theorem pushes_are_legal_one_row :
    (exists inputs ui, Run (step dots) (boot (fun _ _ => black) []) inputs ui ∧
      ui.renderer.taken = true ∧ Drawable ui.renderer) ∧
    (tickPushes dots oneRow Ntp.Clock.new 801 takenOver).length = 2 ∧
      forall push, push ∈ tickPushes dots oneRow Ntp.Clock.new 801 takenOver ->
        push.Legal := by
  have hlegal := pushes_are_legal dots
  have hone := hlegal.2 takenOver oneRow Ntp.Clock.new 801
    ⟨List.length_replicate, fun hfalse => by cases hfalse⟩
  rcases takes_over dots (fun _ _ => black) with ⟨inputs, ui, hrun, htaken, _, _⟩
  refine ⟨⟨inputs, ui, hrun, htaken, hlegal.1 _ _ inputs ui hrun⟩, ?_, ?_⟩
  · rw [hone.2.2 ⟨rfl, rfl⟩ rfl (not_held_801 rfl)]
    decide
  · exact fun push hpush => (hone.1 push hpush).1

end Render
end TWA
