import TWA.Foundation.Runs
import TWA.Render.BarKey

/-!
# Snapshots and the panel

What the renderer remembers to have drawn is on the panel, except where the last
write has failed.  This holds for rows that were drawn in one piece and for rows
that were extended.
-/

namespace TWA

open Foundation
open Foundation.Pixels
open Screen (screenW)

namespace Render

structure TickInput where
  disp : Display
  clock : Ntp.Clock
  nowMs : UInt32

def step (font : Font) (input : TickInput) (ui ui' : Ui) : Prop :=
  ui' = tick font input.disp input.clock input.nowMs ui

def InSlot (slot : Fin visible) (j : Nat) : Prop :=
  rowTop slot ≤ j ∧ j < rowTop slot + lineH

/-- The bar was not drawn since it was cleared, or `c` is its colour here for some content
that the key stands for. -/
def BarShown (font : Font) (P : Display -> Prop) (r : Renderer) (i j : Nat) (c : UInt16) :
    Prop :=
  r.barKey = UInt64.size - 1 ∨
    exists disp clock nowMs, P disp ∧ r.barKey = barKey disp clock nowMs ∧
      c = barPicture font disp clock nowMs i j

/-- The colour of a pixel is the one that the renderer takes it to have. -/
structure Remembers (font : Font) (P : Display -> Prop) (r : Renderer) (i j : Nat)
    (c : UInt16) : Prop where
  cleared : r.taken = false -> j < r.clearRow -> c = black
  bar : r.taken = true -> j < barH -> BarShown font P r i j c
  gap : r.taken = true -> barH ≤ j -> j < subY -> c = black
  row : r.taken = true -> forall slot, InSlot slot j -> c = slotPanel font slot (r.drawn slot) i j

structure Untouched (r : Renderer) : Prop where
  clearRow_lt : r.clearRow < 240
  drawn_eq : r.drawn = fun _ => Slot.default
  barKey_eq : r.barKey = UInt64.size - 1

/-- The renderer is right about all pixels that are not torn. -/
structure Agrees (font : Font) (P : Display -> Prop) (ui : Ui) : Prop where
  band : HasBand ui.renderer
  untouched : ui.renderer.taken = false -> Untouched ui.renderer
  pixels : forall i j, i < screenW -> j < 240 -> ui.screen.torn i j = false ->
    Remembers font P ui.renderer i j (ui.screen.panel i j)

theorem Remembers.of_taken {font : Font} {P : Display -> Prop} {r : Renderer} {i j : Nat}
    {c : UInt16} (htaken : r.taken = true) (hbar : j < barH -> BarShown font P r i j c)
    (hgap : barH ≤ j -> j < subY -> c = black)
    (hrow : forall slot, InSlot slot j -> c = slotPanel font slot (r.drawn slot) i j) :
    Remembers font P r i j c where
  cleared := fun hfalse => absurd (hfalse.symm.trans htaken) Bool.false_ne_true
  bar := fun _ => hbar
  gap := fun _ => hgap
  row := fun _ => hrow

theorem Agrees.of_taken {font : Font} {P : Display -> Prop} {ui : Ui}
    (hband : HasBand ui.renderer) (htaken : ui.renderer.taken = true)
    (hpixels : forall i j, i < screenW -> j < 240 -> ui.screen.torn i j = false ->
      Remembers font P ui.renderer i j (ui.screen.panel i j)) : Agrees font P ui where
  band := hband
  untouched := fun hfalse => absurd (hfalse.symm.trans htaken) Bool.false_ne_true
  pixels := hpixels

/-! ## Slots -/

section Slots

variable {slot slot' : Fin visible} {j : Nat}

theorem InSlot.below_bar (h : InSlot slot j) : subY ≤ j :=
  Nat.le_trans (Nat.le_add_right _ _) h.1

theorem InSlot.unique (h : InSlot slot j) (h' : InSlot slot' j) : slot = slot' := by
  unfold InSlot rowTop lineH at h h'
  apply Fin.ext
  omega

theorem InSlot.lt (h : InSlot slot j) : j < 240 := by
  have hlt : slot.val < 12 := slot.isLt
  unfold InSlot rowTop lineH subY at h
  omega

theorem windowOf_holds_iff {p : Painting} {i : Nat} (hwithin : 0 ≤ p.sx0) :
    (windowOf slot p).Holds i j <->
      (p.sx0 ≤ (i : Int) ∧ (i : Int) < p.sx1) ∧ InSlot slot j := by
  unfold Window.Holds windowOf InSlot
  simp only
  omega

end Slots

section Steps

variable {font : Font} {advance : Char -> Nat} {glyph : Char -> List (Int × Int)}
  {P : Display -> Prop} {ui : Ui} {disp : Display} {clock : Ntp.Clock} {nowMs : UInt32}

/-! ## Clearing -/

theorem barPicture_row_not_slot {slot : Fin visible} {j : Nat} (h : InSlot slot j) :
    ¬j < barH := by
  have hbelow := h.below_bar
  unfold subY at hbelow
  unfold barH
  omega

theorem remembers_black {r : Renderer} (hdrawn : r.drawn = fun _ => Slot.default)
    (hkey : r.barKey = UInt64.size - 1) (i j : Nat) : Remembers font P r i j black where
  cleared := fun _ _ => rfl
  bar := fun _ _ => Or.inl hkey
  gap := fun _ _ _ => rfl
  row := by
    intro _ slot _
    rw [hdrawn]
    exact (rowPicture_blank rfl rfl _ _).symm

theorem Cleared.untouched {ui' : Ui} (h : Cleared ui ui') (huntouched : Untouched ui.renderer) :
    ui'.renderer.drawn = (fun _ => Slot.default) ∧ ui'.renderer.barKey = UInt64.size - 1 := by
  by_cases hdone : 240 ≤ ui'.renderer.clearRow
  · exact (h.done hdone).2
  · rcases h.more (Nat.lt_of_not_le hdone) with ⟨_, hdrawn, hkey⟩
    exact ⟨hdrawn.trans huntouched.drawn_eq, hkey.trans huntouched.barKey_eq⟩

theorem clearNext_agrees (h : Agrees font P ui) (hok : ui.screen.ok = true)
    (htaken : ui.renderer.taken = false) : Agrees font P (clearNext ui) := by
  have huntouched := h.untouched htaken
  have hcleared := clearNext_cleared h.band
  have hpixels : forall i j, i < screenW -> j < 240 ->
      (ui.screen.push (clearWindow ui.renderer) (fun _ _ => black)).2.torn i j = false ->
      j < ui.renderer.clearRow + (clearWindow ui.renderer).h ->
      (ui.screen.push (clearWindow ui.renderer) (fun _ _ => black)).2.panel i j = black := by
    intro i j hi hj htorn habove
    rcases Screen.push_pixel hok htorn with ⟨_, _, hpixel⟩ | ⟨hout, hpixel, hbefore⟩
    · exact hpixel
    · rw [hpixel]
      apply (h.pixels i j hi hj hbefore).cleared htaken
      unfold Window.Holds clearWindow at hout
      unfold clearWindow at habove
      simp only at hout habove
      omega
  rw [← hcleared.screen, ← hcleared.clearRow] at hpixels
  rcases hcleared.untouched huntouched with ⟨hdrawn, hkey⟩
  by_cases hdone : 240 ≤ (clearNext ui).renderer.clearRow
  · apply Agrees.of_taken hcleared.band (hcleared.done hdone).1
    intro i j hi hj htorn
    rw [hpixels i j hi hj htorn (Nat.lt_of_lt_of_le hj hdone)]
    exact remembers_black hdrawn hkey i j
  · have hnot : ¬(clearNext ui).renderer.taken = true := by
      rw [(hcleared.more (Nat.lt_of_not_le hdone)).1, htaken]
      exact Bool.false_ne_true
    constructor
    · exact hcleared.band
    · intro _
      exact ⟨Nat.lt_of_not_le hdone, hdrawn, hkey⟩
    · intro i j hi hj htorn
      constructor
      · intro _ habove
        exact hpixels i j hi hj htorn habove
      · exact fun htrue => absurd htrue hnot
      · exact fun htrue => absurd htrue hnot
      · exact fun htrue => absurd htrue hnot

/-! ## Drawing -/

theorem pushBar_agrees (clock : Ntp.Clock) (nowMs : UInt32) (hP : P disp)
    (h : Agrees font P ui) (hok : ui.screen.ok = true) (htaken : ui.renderer.taken = true) :
    Agrees font P (pushBar font disp clock nowMs ui).2 := by
  rcases pushBar_eq font disp clock nowMs h.band with ⟨band, hband, hbar⟩
  rw [hbar]
  apply Agrees.of_taken
  · exact hband
  · exact htaken
  intro i j hi hj htorn
  simp only at htorn ⊢
  rcases Screen.push_pixel hok htorn with ⟨hwritten, hin, hpixel⟩ | ⟨hout, hpixel, hbefore⟩
  · rw [hpixel]
    have hbarRow : j < barH := by
      unfold Window.Holds barWindow at hin
      simp only at hin
      omega
    apply Remembers.of_taken
    · exact htaken
    · intro _
      exact Or.inr ⟨disp, clock, nowMs, hP, if_pos hwritten, rfl⟩
    · intro hle
      exact absurd hbarRow (Nat.not_lt.mpr hle)
    · intro slot hslot
      exact absurd hbarRow (barPicture_row_not_slot hslot)
  · rw [hpixel]
    have hremembers := h.pixels i j hi hj hbefore
    apply Remembers.of_taken
    · exact htaken
    · intro hbarRow
      refine absurd ⟨⟨Nat.zero_le _, ?_⟩, Nat.zero_le _, ?_⟩ hout
      · exact (Nat.zero_add screenW).symm ▸ hi
      · exact (Nat.zero_add barH).symm ▸ hbarRow
    · exact hremembers.gap htaken
    · exact hremembers.row htaken

theorem paintingOf_outside (hfont : font.Typesets advance glyph) {wanted : Option Slot}
    {d : Slot} {p : Painting} (h : paintingOf font wanted d = some p) {x y : Int}
    (hx : 0 ≤ x ∧ x < screenW) (hout : ¬(p.sx0 ≤ x ∧ x < p.sx1)) :
    rowPicture font d x y = rowPicture font p.slot x y := by
  unfold paintingOf at h
  cases wanted with
  | none =>
      simp only at h
      split at h
      · cases h
      · cases h
        exact absurd hx hout
  | some wanted =>
      simp only at h
      split at h
      · cases h
      · split at h
        · rename_i hextend
          cases h
          exact rowPicture_extend hfont hextend hout
        · cases h
          exact absurd hx hout

def afterPaint (slot : Fin visible) (s : Slot) (written : Bool) (r : Renderer) : Renderer :=
  if written then { r with drawn := Function.update r.drawn slot s } else r

theorem paintRow_agrees (hfont : font.Typesets advance glyph) (h : Agrees font P ui)
    (hok : ui.screen.ok = true) (htaken : ui.renderer.taken = true) {slot : Fin visible}
    {wanted : Option Slot} {p : Painting}
    (hp : paintingOf font wanted (ui.renderer.drawn slot) = some p) :
    Agrees font P
      { renderer := afterPaint slot p.slot (paintRow font slot p ui).1
          (paintRow font slot p ui).2.renderer
        screen := (paintRow font slot p ui).2.screen } := by
  have hwithin := paintingOf_within hfont hp
  rcases paintRow_eq font slot h.band hwithin with ⟨band, hband, hpaint⟩
  rw [hpaint]
  apply Agrees.of_taken
  · unfold afterPaint
    split
    · exact hband
    · exact hband
  · unfold afterPaint
    split
    · exact htaken
    · exact htaken
  intro i j hi hj htorn
  simp only at htorn ⊢
  rcases Screen.push_pixel hok htorn with ⟨hwritten, hin, hpixel⟩ | ⟨hout, hpixel, hbefore⟩
  · rw [hpixel, hwritten]
    have hslot : InSlot slot j := ((windowOf_holds_iff hwithin.1).mp hin).2
    have hbelow := hslot.below_bar
    apply Remembers.of_taken
    · exact htaken
    · intro hbarRow
      exact absurd hbarRow (barPicture_row_not_slot hslot)
    · intro _ hgap
      exact absurd hgap (Nat.not_lt.mpr hbelow)
    · intro slot' hslot'
      rw [← hslot.unique hslot']
      unfold afterPaint
      simp only [if_true, Function.update_self]
  · rw [hpixel]
    have hremembers := h.pixels i j hi hj hbefore
    cases hwritten : (ui.screen.push (windowOf slot p) (slotPanel font slot p.slot)).1 with
    | false => exact ⟨hremembers.cleared, hremembers.bar, hremembers.gap, hremembers.row⟩
    | true =>
        apply Remembers.of_taken
        · exact htaken
        · exact hremembers.bar htaken
        · exact hremembers.gap htaken
        · intro slot' hslot'
          unfold afterPaint
          simp only [if_true]
          by_cases hsame : slot' = slot
          · rw [hsame] at hslot' ⊢
            rw [Function.update_self, hremembers.row htaken slot hslot']
            apply paintingOf_outside hfont hp
            · exact ⟨Int.natCast_nonneg i, Int.ofNat_lt.mpr hi⟩
            · intro hcols
              exact hout ((windowOf_holds_iff hwithin.1).mpr ⟨hcols, hslot'⟩)
          · rw [Function.update_of_ne hsame]
            exact hremembers.row htaken slot' hslot'

theorem paintRow_keeps (hfont : font.Typesets advance glyph) (hband : HasBand ui.renderer)
    {slot : Fin visible} {wanted : Option Slot} {p : Painting}
    (hp : paintingOf font wanted (ui.renderer.drawn slot) = some p) :
    ((paintRow font slot p ui).1 = true -> (paintRow font slot p ui).2.screen.ok = true) ∧
      (paintRow font slot p ui).2.renderer.taken = ui.renderer.taken := by
  rcases paintRow_eq font slot hband (paintingOf_within hfont hp) with ⟨band, _, hpaint⟩
  rw [hpaint]
  exact ⟨Screen.push_ok, rfl⟩

theorem drawRows_full (slots : List (Fin visible)) {pushed : Nat} (h : maxPush ≤ pushed) :
    drawRows font disp slots pushed ui = ui := by
  cases slots with
  | nil => rfl
  | cons slot rest => exact if_pos h

theorem drawRows_clean {slot : Fin visible} (rest : List (Fin visible)) (pushed : Nat)
    (hp : paintingOf font (desiredRow disp slot) (ui.renderer.drawn slot) = none) :
    drawRows font disp (slot :: rest) pushed ui = drawRows font disp rest pushed ui := by
  by_cases hfull : maxPush ≤ pushed
  · rw [drawRows_full _ hfull, drawRows_full _ hfull]
  · conv_lhs => unfold drawRows
    rw [if_neg hfull, hp]

theorem drawRows_painted {slot : Fin visible} (rest : List (Fin visible)) {pushed : Nat}
    (hroom : pushed < maxPush) {p : Painting}
    (hp : paintingOf font (desiredRow disp slot) (ui.renderer.drawn slot) = some p) :
    drawRows font disp (slot :: rest) pushed ui =
      if (paintRow font slot p ui).1 then
        drawRows font disp rest (pushed + 1)
          { renderer := afterPaint slot p.slot (paintRow font slot p ui).1
              (paintRow font slot p ui).2.renderer
            screen := (paintRow font slot p ui).2.screen }
      else (paintRow font slot p ui).2 := by
  conv_lhs => unfold drawRows
  rw [if_neg (Nat.not_le.mpr hroom), hp]
  simp only
  cases hpaint : paintRow font slot p ui with
  | mk written ui' =>
      cases written with
      | false => rfl
      | true => rfl

theorem drawRows_agrees (hfont : font.Typesets advance glyph) (slots : List (Fin visible))
    (pushed : Nat) (h : Agrees font P ui) (hok : ui.screen.ok = true)
    (htaken : ui.renderer.taken = true) :
    Agrees font P (drawRows font disp slots pushed ui) := by
  induction slots generalizing pushed ui with
  | nil => exact h
  | cons slot rest ih =>
      by_cases hfull : maxPush ≤ pushed
      · rw [drawRows_full _ hfull]
        exact h
      · cases hp : paintingOf font (desiredRow disp slot) (ui.renderer.drawn slot) with
        | none =>
            rw [drawRows_clean rest pushed hp]
            exact ih pushed h hok htaken
        | some p =>
            have hpainted := paintRow_agrees hfont h hok htaken hp
            have hkeeps := paintRow_keeps hfont h.band hp
            rw [drawRows_painted rest (Nat.lt_of_not_le hfull) hp]
            cases hwritten : (paintRow font slot p ui).1 with
            | false =>
                rw [hwritten] at hpainted
                exact hpainted
            | true =>
                rw [hwritten] at hpainted
                exact ih (pushed + 1) hpainted (hkeeps.1 hwritten) (hkeeps.2.trans htaken)

theorem drawFrame_agrees (hfont : font.Typesets advance glyph) (hP : P disp)
    (h : Agrees font P ui) (hok : ui.screen.ok = true)
    (htaken : ui.renderer.taken = true) :
    Agrees font P (drawFrame font disp clock nowMs ui) := by
  unfold drawFrame
  split
  · have hpushed := pushBar_agrees clock nowMs hP h hok htaken
    rcases pushBar_eq font disp clock nowMs h.band with ⟨band, _, hbar⟩
    cases hpush : pushBar font disp clock nowMs ui with
    | mk written ui' =>
        rw [hpush] at hpushed hbar
        cases written with
        | false => exact hpushed
        | true =>
            rw [Prod.mk.injEq] at hbar
            apply drawRows_agrees hfont _ _ hpushed
            · rw [hbar.2]
              exact Screen.push_ok hbar.1.symm
            · rw [hbar.2]
              exact htaken
  · exact drawRows_agrees hfont _ _ h hok htaken

/-! ## Ticks -/

theorem initPanel_same (s : Screen) :
    s.initPanel.panel = s.panel ∧ s.initPanel.torn = s.torn := by
  unfold Screen.initPanel
  split
  · exact ⟨rfl, rfl⟩
  · exact ⟨rfl, rfl⟩
  · exact ⟨rfl, rfl⟩

theorem Agrees.of_same (h : Agrees font P ui) {ui' : Ui}
    (hrenderer : ui'.renderer =
      { ui.renderer with
        startMs := ui'.renderer.startMs
        recoverAt := ui'.renderer.recoverAt })
    (hpanel : ui'.screen.panel = ui.screen.panel)
    (htorn : ui'.screen.torn = ui.screen.torn) : Agrees font P ui' := by
  constructor
  · rw [hrenderer]
    exact h.band
  · rw [hrenderer]
    intro hfalse
    have huntouched := h.untouched hfalse
    exact ⟨huntouched.clearRow_lt, huntouched.drawn_eq, huntouched.barKey_eq⟩
  · rw [hrenderer, hpanel, htorn]
    intro i j hi hj hrow
    have hremembers := h.pixels i j hi hj hrow
    exact ⟨hremembers.cleared, hremembers.bar, hremembers.gap, hremembers.row⟩

/-- The time for which the diagnostic bars stay starts with the first tick. -/
def startedAt (nowMs : UInt32) (r : Renderer) : UInt32 :=
  if r.startMs = 0 then nowMs else r.startMs

def Held (nowMs : UInt32) (r : Renderer) : Prop :=
  nowMs - startedAt nowMs r < barHoldMs

instance (nowMs : UInt32) (r : Renderer) : Decidable (Held nowMs r) :=
  inferInstanceAs (Decidable (_ < _))

def started (nowMs : UInt32) (ui : Ui) : Ui :=
  { ui with renderer := { ui.renderer with startMs := startedAt nowMs ui.renderer } }

theorem started_of_ne {ui : Ui} (nowMs : UInt32) (h : ui.renderer.startMs ≠ 0) :
    started nowMs ui = ui := by
  unfold started startedAt
  rw [if_neg h]

/-- The first tick is always held back. -/
theorem startMs_of_live {nowMs : UInt32} {r : Renderer} (h : ¬Held nowMs r) : r.startMs ≠ 0 := by
  intro hzero
  apply h
  unfold Held startedAt
  rw [if_pos hzero, UInt32.sub_self]
  decide

theorem tick_ready (font : Font) (disp : Display) (clock : Ntp.Clock) (nowMs : UInt32)
    {ui : Ui} (hok : ui.screen.ok = true) :
    tick font disp clock nowMs ui =
      if Held nowMs ui.renderer then
        started nowMs ui
      else if ui.renderer.taken then
        drawFrame font disp clock nowMs ui
      else
        clearNext ui := by
  have hstart : (if ui.renderer.startMs = 0 then { ui.renderer with startMs := nowMs }
      else ui.renderer) =
        { ui.renderer with startMs := startedAt nowMs ui.renderer } := by
    unfold startedAt
    split <;> rfl
  by_cases hheld : Held nowMs ui.renderer
  · rw [if_pos hheld]
    unfold Held at hheld
    unfold tick Screen.isReady started
    simp only [hok, hstart, Bool.not_true, Bool.false_eq_true, if_false]
    rw [if_pos hheld]
  · have hsame := started_of_ne nowMs (startMs_of_live hheld)
    rw [if_neg hheld]
    unfold Held at hheld
    unfold started at hsame
    unfold tick Screen.isReady
    simp only [hok, hstart, Bool.not_true, Bool.false_eq_true, if_false]
    rw [if_neg hheld, hsame]
    cases ui.renderer.taken <;> rfl

theorem tick_cases (font : Font) (disp : Display) (clock : Ntp.Clock) (nowMs : UInt32)
    (ui : Ui) :
    (ui.screen.ok = false ∧ nowMs - ui.renderer.recoverAt < recoverIntervalMs ∧
        tick font disp clock nowMs ui = ui) ∨
      (ui.screen.ok = false ∧ ¬nowMs - ui.renderer.recoverAt < recoverIntervalMs ∧
        tick font disp clock nowMs ui =
          { renderer := { ui.renderer with recoverAt := nowMs }
            screen := ui.screen.tryRecover }) ∨
      (ui.screen.ok = true ∧ Held nowMs ui.renderer ∧
        tick font disp clock nowMs ui = started nowMs ui) ∨
      (ui.screen.ok = true ∧ ¬Held nowMs ui.renderer ∧ ui.renderer.taken = false ∧
        tick font disp clock nowMs ui = clearNext ui) ∨
      (ui.screen.ok = true ∧ ¬Held nowMs ui.renderer ∧ ui.renderer.taken = true ∧
        tick font disp clock nowMs ui = drawFrame font disp clock nowMs ui) := by
  cases hok : ui.screen.ok with
  | false =>
      unfold tick Screen.isReady
      rw [hok]
      by_cases hlater : nowMs - ui.renderer.recoverAt < recoverIntervalMs
      · refine Or.inl ⟨rfl, hlater, ?_⟩
        exact if_neg (UInt32.not_le.mpr hlater)
      · refine Or.inr (Or.inl ⟨rfl, hlater, ?_⟩)
        exact if_pos (UInt32.not_lt.mp hlater)
  | true =>
      have htick := tick_ready font disp clock nowMs hok
      by_cases hheld : Held nowMs ui.renderer
      · rw [if_pos hheld] at htick
        exact Or.inr (Or.inr (Or.inl ⟨rfl, hheld, htick⟩))
      · rw [if_neg hheld] at htick
        cases htaken : ui.renderer.taken with
        | false =>
            rw [htaken] at htick
            exact Or.inr (Or.inr (Or.inr (Or.inl ⟨rfl, hheld, rfl, htick⟩)))
        | true =>
            rw [htaken] at htick
            exact Or.inr (Or.inr (Or.inr (Or.inr ⟨rfl, hheld, rfl, htick⟩)))

theorem tick_agrees (hfont : font.Typesets advance glyph) (hP : P disp)
    (h : Agrees font P ui) : Agrees font P (tick font disp clock nowMs ui) := by
  rcases tick_cases font disp clock nowMs ui with
    ⟨_, _, htick⟩ | ⟨_, _, htick⟩ | ⟨_, _, htick⟩ | ⟨hok, _, htaken, htick⟩ |
    ⟨hok, _, htaken, htick⟩
  · rw [htick]
    exact h
  · rw [htick]
    have hsame := initPanel_same { ui.screen with ok := true }
    exact h.of_same rfl hsame.1 hsame.2
  · rw [htick]
    exact h.of_same rfl rfl rfl
  · rw [htick]
    exact clearNext_agrees h hok htaken
  · rw [htick]
    exact drawFrame_agrees hfont hP h hok htaken

end Steps

/-! ## Runs -/

section Runs

variable {font : Font} {P : Display -> Prop}

theorem boot_agrees (panel : Panel) (outcomes : List Screen.Outcome) :
    Agrees font P (boot panel outcomes) := by
  constructor
  · exact List.length_replicate
  · intro _
    exact ⟨Nat.zero_lt_of_ne_zero (by decide), rfl, rfl⟩
  · intro i j _ _ _
    constructor
    · intro _ hcleared
      exact absurd hcleared (Nat.not_lt_zero j)
    · intro hfalse
      cases hfalse
    · intro hfalse
      cases hfalse
    · intro hfalse
      cases hfalse

end Runs

end Render
end TWA
