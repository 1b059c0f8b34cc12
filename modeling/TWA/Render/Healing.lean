import TWA.Foundation.Counters
import TWA.Render.Settling

/-!
# How the picture heals

When writes succeed again, the renderer paints what it takes to be missing: the
pixel rows it has not cleared, the bar if its key differs, and the rows whose
snapshots differ from what they should show.  A pixel outside of this keeps the
colour that a failed write has left.  So the picture heals just if every torn
pixel is painted again or happens to be right.
-/

namespace TWA

open Foundation
open Foundation.Pixels
open Display (DisplayState SubtitleLine)
open Screen (screenW screenH)

namespace Render

def frame (font : Font) (input : TickInput) : Panel :=
  fun i j =>
    if j < barH then
      barPicture font input.disp input.clock input.nowMs i j
    else if j < subY then
      black
    else
      fullRow font ((view input.disp)[(j - subY) / lineH]?.getD Slot.default) i
        ((j - subY) % lineH)

def Shows (font : Font) (input : TickInput) (ui : Ui) : Prop :=
  forall i j, i < screenW -> j < screenH -> ui.screen.panel i j = frame font input i j

def Remaining (font : Font) (disp : Display) (key : Nat) (r : Renderer) (i j : Nat) : Prop :=
  (r.taken = false ∧ r.clearRow ≤ j) ∨ (j < barH ∧ r.barKey ≠ key) ∨
    exists (slot : Fin visible) (p : Painting),
      paintingOf font (desiredRow disp slot) (r.drawn slot) = some p ∧
        (windowOf slot p).Holds i j

/-- The pixel is going to be painted, or it has the intended colour. -/
def OnTrack (font : Font) (input : TickInput) (ui : Ui) (i j : Nat) : Prop :=
  Remaining font input.disp (barKey input.disp input.clock input.nowMs) ui.renderer i j ∨
    ui.screen.panel i j = frame font input i j

def slotOf (j : Nat) (hj : j < screenH) : Fin visible :=
  ⟨(j - subY) / lineH, by
    have hvisible : visible = 12 := rfl
    unfold screenH at hj
    unfold subY lineH
    omega⟩

section Pixels

variable {font : Font} {advance : Char -> Nat} {glyph : Char -> List (Int × Int)}
  {ui ui' : Ui} {input : TickInput} {slot : Fin visible} {p : Painting} {d : Slot}
  {wanted : Option Slot} {i j : Nat}

/-! ## The intended picture -/

theorem inSlot_slotOf (hj : j < screenH) (hbelow : subY ≤ j) : InSlot (slotOf j hj) j := by
  unfold InSlot rowTop slotOf lineH
  simp only
  unfold subY at hbelow ⊢
  omega

theorem frame_bar (hbar : j < barH) :
    frame font input i j = barPicture font input.disp input.clock input.nowMs i j :=
  if_pos hbar

theorem frame_gap (hbar : ¬j < barH) (hgap : j < subY) : frame font input i j = black := by
  unfold frame
  rw [if_neg hbar, if_pos hgap]

theorem frame_row (hslot : InSlot slot j) (hi : i < screenW) :
    frame font input i j =
      slotPanel font slot ((desiredRow input.disp slot).getD Slot.default) i j := by
  have hbelow := hslot.below_bar
  have hrow : (j - subY) / lineH = slot.val ∧
      ((j - subY) % lineH : Nat) = (j : Int) - rowTop slot := by
    unfold InSlot rowTop lineH at hslot
    unfold rowTop lineH
    unfold subY at hslot ⊢
    omega
  unfold frame
  rw [if_neg (barPicture_row_not_slot hslot), if_neg (Nat.not_lt.mpr hbelow), hrow.1,
    fullRow_eq hi (Nat.mod_lt _ (by decide)), hrow.2, desiredRow_eq]
  rfl

theorem slotPanel_painted (h : paintingOf font wanted d = some p) :
    slotPanel font slot p.slot i j = slotPanel font slot (wanted.getD Slot.default) i j :=
  rowPicture_of_clean (paintingOf_again h) _ _

/-! ## Nothing drawn yet -/

theorem paintingOf_default (h : paintingOf font wanted Slot.default = some p) :
    p.sx0 = 0 ∧ p.sx1 = screenW := by
  unfold paintingOf at h
  cases wanted with
  | none => cases h
  | some wanted =>
      have hextend : canExtend font Slot.default wanted = false := by
        unfold canExtend Slot.default
        simp
      simp only at h
      split at h
      · cases h
      · rw [hextend, if_neg Bool.false_ne_true] at h
        cases h
        exact ⟨rfl, rfl⟩

theorem onTrack_black (hrange : input.disp.InRange) (hi : i < screenW) (hj : j < screenH)
    (hdrawn : ui.renderer.drawn = fun _ => Slot.default)
    (hkey : ui.renderer.barKey = UInt64.size - 1)
    (hblack : ui.screen.panel i j = black) : OnTrack font input ui i j := by
  by_cases hbar : j < barH
  · have hlt := barKey_lt input.clock input.nowMs hrange
    refine Or.inl (Or.inr (Or.inl ⟨hbar, ?_⟩))
    rw [hkey]
    exact Nat.ne_of_gt hlt
  · by_cases hgap : j < subY
    · exact Or.inr (hblack.trans (frame_gap hbar hgap).symm)
    · have hslot := inSlot_slotOf hj (Nat.not_lt.mp hgap)
      cases hp : paintingOf font (desiredRow input.disp (slotOf j hj))
          (ui.renderer.drawn (slotOf j hj)) with
      | none =>
          rw [hdrawn] at hp
          refine Or.inr ?_
          rw [hblack, frame_row hslot hi]
          have hblank : rowPicture font Slot.default (i : Int)
              ((j : Int) - rowTop (slotOf j hj)) = black :=
            rowPicture_blank rfl rfl _ _
          exact hblank.symm.trans (rowPicture_of_clean hp _ _)
      | some p =>
          have hwhole := hp
          rw [hdrawn] at hwhole
          rcases paintingOf_default hwhole with ⟨hleft, hright⟩
          refine Or.inl (Or.inr (Or.inr ⟨slotOf j hj, p, hp, ?_⟩))
          rw [windowOf_holds_iff (by rw [hleft]), hleft, hright]
          exact ⟨⟨Int.natCast_nonneg i, Int.ofNat_lt.mpr hi⟩, hslot⟩

/-! ## One band -/

theorem painted_onTrack (hfont : font.Typesets advance glyph) (hi : i < screenW)
    (hp : paintingOf font (desiredRow input.disp slot) (ui.renderer.drawn slot) = some p)
    (hpainted : Painted font slot p ui ui') :
    OnTrack font input ui' i j <-> OnTrack font input ui i j := by
  have hwithin := paintingOf_within hfont hp
  rcases hpainted with ⟨band, _, hui⟩
  rw [hui]
  by_cases hin : (windowOf slot p).Holds i j
  · have hslot := ((windowOf_holds_iff hwithin.1).mp hin).2
    constructor
    · intro _
      exact Or.inl (Or.inr (Or.inr ⟨slot, p, hp, hin⟩))
    · intro _
      refine Or.inr ?_
      rw [frame_row hslot hi, ← slotPanel_painted hp]
      exact paste_of_holds hin
  · have hpanel : (ui.screen.afterWrite (windowOf slot p) (slotPanel font slot p.slot)).panel i j =
        ui.screen.panel i j :=
      paste_of_not_holds hin
    unfold OnTrack
    rw [hpanel]
    apply or_congr_left
    unfold Remaining
    apply or_congr_right
    apply or_congr_right
    constructor
    · intro h
      rcases h with ⟨slot', p', hp', hin'⟩
      simp only at hp'
      by_cases hsame : slot' = slot
      · rw [hsame, Function.update_self, paintingOf_again hp] at hp'
        cases hp'
      · rw [Function.update_of_ne hsame] at hp'
        exact ⟨slot', p', hp', hin'⟩
    · intro h
      rcases h with ⟨slot', p', hp', hin'⟩
      by_cases hsame : slot' = slot
      · rw [hsame] at hp' hin'
        rw [hp] at hp'
        cases hp'
        exact absurd hin' hin
      · refine ⟨slot', p', ?_, hin'⟩
        simp only
        rw [Function.update_of_ne hsame]
        exact hp'

theorem barDrawn_onTrack {input' : TickInput} (hi : i < screenW)
    (hrange : input.disp.InRange) (hdisp : input'.disp = input.disp)
    (hkey : barKey input'.disp input'.clock input'.nowMs =
      barKey input.disp input.clock input.nowMs)
    (hdirty : ui.renderer.barKey ≠ barKey input.disp input.clock input.nowMs)
    (hdrawn : BarDrawn font input' ui ui') :
    OnTrack font input ui' i j <-> OnTrack font input ui i j := by
  rcases hdrawn with ⟨band, _, hui⟩
  rw [hui]
  by_cases hin : barWindow.Holds i j
  · have hbar : j < barH := by
      unfold Window.Holds barWindow at hin
      simp only at hin
      omega
    constructor
    · intro _
      exact Or.inl (Or.inr (Or.inl ⟨hbar, hdirty⟩))
    · intro _
      refine Or.inr ?_
      have hsame := barPicture_of_barKey font (hdisp ▸ hrange) hrange hkey
      rw [frame_bar hbar, ← hsame]
      exact paste_of_holds hin
  · have hbar : ¬j < barH := by
      intro hbar
      apply hin
      unfold Window.Holds barWindow
      simp only
      omega
    have hpanel : (ui.screen.afterWrite barWindow
        (barPicture font input'.disp input'.clock input'.nowMs)).panel i j =
          ui.screen.panel i j :=
      paste_of_not_holds hin
    unfold OnTrack
    rw [hpanel]
    apply or_congr_left
    unfold Remaining
    apply or_congr_right
    apply or_congr_left
    constructor
    · intro h
      exact absurd h.1 hbar
    · intro h
      exact absurd h.1 hbar

theorem onTrack_congr (hdrawn : ui'.renderer.drawn = ui.renderer.drawn)
    (hkey : ui'.renderer.barKey = ui.renderer.barKey)
    (htaken : ui'.renderer.taken = ui.renderer.taken)
    (hcleared : ui'.renderer.clearRow = ui.renderer.clearRow)
    (hpanel : ui'.screen.panel = ui.screen.panel) :
    OnTrack font input ui' i j <-> OnTrack font input ui i j := by
  unfold OnTrack Remaining
  rw [hdrawn, hkey, htaken, hcleared, hpanel]

theorem clearNext_onTrack (hrange : input.disp.InRange) (hi : i < screenW) (hj : j < screenH)
    (hband : HasBand ui.renderer) (huntouched : Untouched ui.renderer)
    (htaken : ui.renderer.taken = false) (hwritable : Writable ui.screen) :
    OnTrack font input (clearNext ui) i j <-> OnTrack font input ui i j := by
  have hcleared := clearNext_cleared hband
  rcases hcleared.untouched huntouched with ⟨hdrawn, hkey⟩
  have hscreen : (clearNext ui).screen.panel =
      paste (clearWindow ui.renderer) (fun _ _ => black) ui.screen.panel := by
    rw [hcleared.screen, push_of_writable hwritable]
    rfl
  by_cases hin : (clearWindow ui.renderer).Holds i j
  · constructor
    · intro _
      exact Or.inl (Or.inl ⟨htaken, hin.2.1⟩)
    · intro _
      apply onTrack_black hrange hi hj hdrawn hkey
      rw [hscreen]
      exact paste_of_holds hin
  · have hpanel : (clearNext ui).screen.panel i j = ui.screen.panel i j := by
      rw [hscreen]
      exact paste_of_not_holds hin
    unfold OnTrack
    rw [hpanel]
    apply or_congr_left
    unfold Remaining
    rw [hdrawn, hkey, huntouched.drawn_eq, huntouched.barKey_eq]
    apply or_congr_left
    unfold Window.Holds clearWindow at hin
    simp only at hin
    have hrow : (clearNext ui).renderer.clearRow =
        ui.renderer.clearRow + min lineH (240 - ui.renderer.clearRow) :=
      hcleared.clearRow
    constructor
    · intro h
      exact ⟨htaken, by omega⟩
    · intro h
      have habove := h.2
      have hbeyond : (clearNext ui).renderer.clearRow ≤ j := by omega
      have hmore : (clearNext ui).renderer.clearRow < 240 := Nat.lt_of_le_of_lt hbeyond hj
      exact ⟨(hcleared.more hmore).1.trans htaken, hbeyond⟩

/-! ## One tick -/

theorem drawRows_onTrack (hfont : font.Typesets advance glyph) (hi : i < screenW)
    (slots : List (Fin visible)) (pushed : Nat) (hband : HasBand ui.renderer)
    (hwritable : Writable ui.screen) :
    OnTrack font input (drawRows font input.disp slots pushed ui) i j <->
      OnTrack font input ui i j := by
  induction slots generalizing pushed ui with
  | nil => exact Iff.rfl
  | cons slot rest ih =>
      by_cases hfull : maxPush ≤ pushed
      · rw [drawRows_full _ hfull]
      · cases hp : paintingOf font (desiredRow input.disp slot) (ui.renderer.drawn slot) with
        | none =>
            rw [drawRows_clean rest pushed hp]
            exact ih pushed hband hwritable
        | some p =>
            rcases drawRows_paints hfont hband hwritable rest (Nat.lt_of_not_le hfull) hp with
              ⟨ui', hpainted, hgoes⟩
            rw [hgoes, ih (pushed + 1) hpainted.band (hpainted.writable hwritable)]
            exact painted_onTrack hfont hi hp hpainted

theorem drawFrame_onTrack (hfont : font.Typesets advance glyph) {input' : TickInput}
    (hi : i < screenW) (hrange : input.disp.InRange)
    (hsame : Same input.disp (barKey input.disp input.clock input.nowMs) input')
    (hband : HasBand ui.renderer) (hwritable : Writable ui.screen) :
    OnTrack font input (drawFrame font input'.disp input'.clock input'.nowMs ui) i j <->
      OnTrack font input ui i j := by
  rcases hsame with ⟨hdisp, hkey⟩
  unfold drawFrame
  by_cases hclean : ui.renderer.barKey = barKey input'.disp input'.clock input'.nowMs
  · rw [if_neg (by rw [hclean, bne_self_eq_false]; exact Bool.false_ne_true), hdisp]
    exact drawRows_onTrack hfont hi _ 0 hband hwritable
  · rw [if_pos (by rw [bne_iff_ne]; exact hclean)]
    rcases pushBar_draws font input'.disp input'.clock input'.nowMs hband hwritable with
      ⟨ui', hdrawn, hpush⟩
    rw [hpush, hdisp]
    simp only
    rw [drawRows_onTrack hfont hi _ 1 hdrawn.band (hdrawn.writable hwritable)]
    exact barDrawn_onTrack hi hrange hdisp hkey (hkey ▸ hclean) hdrawn

theorem tryRecover_writes {s : Screen} (h : s.outcomes = []) :
    s.tryRecover = { s with ok := true } := by
  unfold Screen.tryRecover Screen.initPanel
  rw [h]

/-- While writes succeed, every tick keeps the pixels on track that are, and no others. -/
theorem tick_onTrack (hfont : font.Typesets advance glyph) {input' : TickInput}
    (hi : i < screenW) (hj : j < screenH) (hrange : input.disp.InRange)
    (hsame : Same input.disp (barKey input.disp input.clock input.nowMs) input')
    (hagrees : Agrees font Display.InRange ui) (hwrites : ui.screen.outcomes = []) :
    OnTrack font input (tick font input'.disp input'.clock input'.nowMs ui) i j <->
      OnTrack font input ui i j := by
  rcases tick_cases font input'.disp input'.clock input'.nowMs ui with
    ⟨_, _, htick⟩ | ⟨_, _, htick⟩ | ⟨_, _, htick⟩ | ⟨hok, _, htaken, htick⟩ |
    ⟨hok, _, htaken, htick⟩
  · rw [htick]
  · rw [htick, tryRecover_writes hwrites]
    exact onTrack_congr rfl rfl rfl rfl rfl
  · rw [htick]
    exact onTrack_congr rfl rfl rfl rfl rfl
  · rw [htick]
    exact clearNext_onTrack hrange hi hj hagrees.band (hagrees.untouched htaken) htaken
      ⟨hok, hwrites⟩
  · rw [htick]
    exact drawFrame_onTrack hfont hi hrange hsame hagrees.band ⟨hok, hwrites⟩

end Pixels

end Render
end TWA
