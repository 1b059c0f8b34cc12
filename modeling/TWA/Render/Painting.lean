import TWA.Render.Rows

/-!
# Bands as pictures

What the renderer sends is described by windows and pictures instead of bytes:
every band is the part of a picture that lies in its window, whatever was in the
scratch space before.
-/

namespace TWA

open Foundation
open Foundation.Pixels
open Screen (screenW)

/-! ## Writing a picture -/

namespace Screen

open Render (pixel)

def push (win : Window) (pixels : Panel) (s : Screen) : Bool × Screen :=
  if !s.ok then (false, s) else transact win pixels s

def afterWrite (win : Window) (pixels : Panel) (s : Screen) : Screen :=
  { ok := s.ok
    panel := paste win pixels s.panel
    outcomes := s.outcomes.tail
    pushes := s.pushes + 1
    torn := fun i j => s.torn i j && !decide (win.Holds i j) }

section Writes

variable {s : Screen} {win : Window} {pixels : Panel} {bytes : List UInt8} {i j : Nat}

theorem transact_congr {pixels' : Panel}
    (h : forall i j, win.Holds i j -> pixels i j = pixels' i j) :
    transact win pixels s = transact win pixels' s := by
  have hpaste : paste win pixels s.panel = paste win pixels' s.panel := by
    funext i j
    by_cases hin : win.Holds i j
    · rw [paste_of_holds hin, paste_of_holds hin, h i j hin]
    · rw [paste_of_not_holds hin, paste_of_not_holds hin]
  unfold transact
  rw [hpaste]

theorem pushBand_eq (s : Screen) (hlen : bytes.length = win.w * win.h * 2)
    (h : forall i j, win.Holds i j -> pixel win.w bytes (i - win.x) (j - win.y) = pixels i j) :
    pushBand win bytes s = push win pixels s := by
  unfold pushBand push
  cases s.ok with
  | false => rfl
  | true =>
      have hsame : transact win (bandPixels win bytes) s = transact win pixels s :=
        transact_congr h
      simp only [Bool.not_true, Bool.false_eq_true, if_false, hlen, ne_eq, not_true_eq_false]
      exact hsame

def Fails (s : Screen) : Prop :=
  exists garbage rest, s.outcomes = .failed garbage :: rest

theorem push_of_not_fails (hok : s.ok = true) (h : ¬s.Fails) :
    push win pixels s = (true, s.afterWrite win pixels) := by
  unfold push transact afterWrite
  rw [hok, Bool.not_true, if_neg Bool.false_ne_true]
  cases houtcomes : s.outcomes with
  | nil => rfl
  | cons o rest =>
      cases o with
      | written => rfl
      | failed garbage => exact absurd ⟨garbage, rest, houtcomes⟩ h

theorem push_of_fails (win : Window) (pixels : Panel) (hok : s.ok = true) (h : s.Fails) :
    exists garbage rest, s.outcomes = .failed garbage :: rest ∧
      push win pixels s =
        (false,
          { ok := false
            panel := paste win garbage s.panel
            outcomes := rest
            pushes := s.pushes + 1
            torn := fun i j => s.torn i j || decide (win.Holds i j) }) := by
  rcases h with ⟨garbage, rest, houtcomes⟩
  refine ⟨garbage, rest, houtcomes, ?_⟩
  unfold push transact
  rw [hok, Bool.not_true, if_neg Bool.false_ne_true, houtcomes]

theorem push_ok (h : (push win pixels s).1 = true) : (push win pixels s).2.ok = true := by
  have hok : s.ok = true := by
    cases hcase : s.ok with
    | false =>
        unfold push at h
        rw [hcase] at h
        exact absurd h Bool.false_ne_true
    | true => rfl
  by_cases hfails : s.Fails
  · rcases push_of_fails win pixels hok hfails with ⟨_, _, _, hpush⟩
    rw [hpush] at h
    exact absurd h Bool.false_ne_true
  · rw [push_of_not_fails hok hfails]
    exact hok

theorem push_torn (hok : s.ok = true) :
    (push win pixels s).2.torn i j =
      if win.Holds i j then !(push win pixels s).1 else s.torn i j := by
  by_cases hfails : s.Fails
  · rcases push_of_fails win pixels hok hfails with ⟨_, _, _, hpush⟩
    rw [hpush]
    by_cases hin : win.Holds i j
    · simp [hin]
    · simp [hin]
  · rw [push_of_not_fails hok hfails]
    unfold afterWrite
    by_cases hin : win.Holds i j
    · simp [hin]
    · simp [hin]

theorem push_pixel (hok : s.ok = true) (htorn : (push win pixels s).2.torn i j = false) :
    ((push win pixels s).1 = true ∧ win.Holds i j ∧
        (push win pixels s).2.panel i j = pixels i j) ∨
      (¬win.Holds i j ∧ (push win pixels s).2.panel i j = s.panel i j ∧
        s.torn i j = false) := by
  rw [push_torn hok] at htorn
  by_cases hin : win.Holds i j
  · rw [if_pos hin, Bool.not_eq_false'] at htorn
    by_cases hfails : s.Fails
    · rcases push_of_fails win pixels hok hfails with ⟨_, _, _, hpush⟩
      rw [hpush] at htorn
      exact absurd htorn Bool.false_ne_true
    · rw [push_of_not_fails hok hfails]
      exact Or.inl ⟨rfl, hin, paste_of_holds hin⟩
  · rw [if_neg hin] at htorn
    refine Or.inr ⟨hin, ?_, htorn⟩
    by_cases hfails : s.Fails
    · rcases push_of_fails win pixels hok hfails with ⟨_, _, _, hpush⟩
      rw [hpush]
      exact paste_of_not_holds hin
    · rw [push_of_not_fails hok hfails]
      exact paste_of_not_holds hin

end Writes

end Screen

namespace Render

/-! ## The pictures -/

def fullRow (font : Font) (slot : Slot) : Panel :=
  pixel screenW (rowBand font slot 0 screenW (List.replicate (screenW * lineH * 2) 0))

def barPicture (font : Font) (disp : Display) (clock : Ntp.Clock) (nowMs : UInt32) :
    Panel :=
  pixel screenW
    (barBand font disp clock nowMs (List.replicate (screenW * barH * 2) 0))

def slotPanel (font : Font) (slot : Fin visible) (s : Slot) : Panel :=
  fun i j => rowPicture font s i ((j : Int) - rowTop slot)

def windowOf (slot : Fin visible) (p : Painting) : Window :=
  { x := p.sx0.toNat
    y := rowTop slot
    w := (p.sx1 - p.sx0).toNat
    h := lineH }

def barWindow : Window :=
  { x := 0, y := 0, w := screenW, h := barH }

def clearWindow (r : Renderer) : Window :=
  { x := 0, y := r.clearRow, w := screenW, h := min lineH (240 - r.clearRow) }

def afterClear (r : Renderer) : Renderer :=
  if r.clearRow ≥ 240 then
    { r with
      drawn := fun _ => Slot.default
      taken := true
      barKey := UInt64.size - 1 }
  else
    r

def HasBand (r : Renderer) : Prop :=
  r.band.length = screenW * barH * 2

section Bands

variable {font : Font} {advance : Char -> Nat} {glyph : Char -> List (Int × Int)}
  {slot : Fin visible} {p : Painting} {d : Slot} {wanted : Option Slot} {ui : Ui}
  {disp : Display} {clock : Ntp.Clock} {nowMs : UInt32}

theorem fullRow_eq {s : Slot} {x y : Nat} (hx : x < screenW) (hy : y < lineH) :
    fullRow font s x y = rowPicture font s x y := by
  have hlen : (List.replicate (screenW * lineH * 2) (0 : UInt8)).length =
      screenW * lineH * 2 :=
    List.length_replicate
  unfold fullRow
  rw [pixel_rowBand hlen hx hy, Int.zero_add]

theorem paintingOf_within (hfont : font.Typesets advance glyph)
    (h : paintingOf font wanted d = some p) :
    0 ≤ p.sx0 ∧ p.sx0 < p.sx1 ∧ p.sx1 ≤ screenW := by
  have hwhole : (0 : Int) ≤ 0 ∧ (0 : Int) < (screenW : Int) ∧ (screenW : Int) ≤ screenW := by
    decide
  unfold paintingOf at h
  cases wanted with
  | none =>
      simp only at h
      split at h
      · cases h
      · cases h
        exact hwhole
  | some wanted =>
      simp only at h
      split at h
      · cases h
      · split at h
        · rename_i hextend
          cases h
          rcases canExtend_iff.mp hextend with ⟨_, _, _, _, _, hlonger, hfits⟩
          have hnonneg := textWidth_nonneg hfont d.txt
          unfold textX
          unfold Display.subW at hfits
          unfold screenW
          simp only
          omega
        · cases h
          exact hwhole

theorem paintRow_eq (font : Font) (slot : Fin visible) (hband : HasBand ui.renderer)
    (hwithin : 0 ≤ p.sx0 ∧ p.sx0 < p.sx1 ∧ p.sx1 ≤ screenW) :
    exists band, HasBand { ui.renderer with band := band } ∧
      paintRow font slot p ui =
        ((ui.screen.push (windowOf slot p) (slotPanel font slot p.slot)).1,
          { renderer := { ui.renderer with band := band }
            screen := (ui.screen.push (windowOf slot p) (slotPanel font slot p.slot)).2 }) := by
  rcases hwithin with ⟨hleft, hlonger, hright⟩
  have hleft' : max p.sx0 0 = p.sx0 := max_eq_left hleft
  have hright' : min p.sx1 (screenW : Int) = p.sx1 := min_eq_left hright
  have hwide : max (p.sx1 - p.sx0) 1 = p.sx1 - p.sx0 := by omega
  have hroom : (p.sx1 - p.sx0).toNat * lineH * 2 ≤ ui.renderer.band.length := by
    unfold HasBand at hband
    rw [hband]
    unfold lineH barH
    omega
  have htake : (ui.renderer.band.take ((p.sx1 - p.sx0).toNat * lineH * 2)).length =
      (p.sx1 - p.sx0).toNat * lineH * 2 := by
    rw [List.length_take]
    omega
  have hlen := length_rowBand font p.slot p.sx0 htake
  refine ⟨splice ui.renderer.band 0 (rowBand font p.slot p.sx0 (p.sx1 - p.sx0).toNat
    (ui.renderer.band.take ((p.sx1 - p.sx0).toNat * lineH * 2))), ?_, ?_⟩
  · unfold HasBand at hband ⊢
    rw [← hband]
    exact length_splice (by rw [hlen]; omega)
  · have hpush : ui.screen.pushBand (windowOf slot p)
        (rowBand font p.slot p.sx0 (p.sx1 - p.sx0).toNat
          (ui.renderer.band.take ((p.sx1 - p.sx0).toNat * lineH * 2))) =
          ui.screen.push (windowOf slot p) (slotPanel font slot p.slot) := by
      apply Screen.pushBand_eq _ hlen
      intro i j hin
      rcases hin with ⟨hi, hj⟩
      unfold windowOf at hi hj ⊢
      simp only at hi hj ⊢
      rw [pixel_rowBand htake (by omega) (by omega)]
      unfold slotPanel
      congr 1 <;> omega
    unfold paintRow
    simp only [hleft', hright', hwide]
    unfold windowOf at hpush ⊢
    rw [hpush]

theorem length_lightning {bx : Int} {band : List UInt8} :
    (lightning bx band).length = band.length := by
  unfold lightning
  simp only [length_drawLine]

theorem length_barBand {band : List UInt8} :
    (barBand font disp clock nowMs band).length = (fillColor barBg band).length := by
  unfold barBand
  simp only
  split
  · simp only [length_raster]
  · split
    · rw [length_lightning]
      simp only [length_raster, length_fillRect]
    · simp only [length_raster, length_fillRect]

theorem barBand_congr {band band' : List UInt8} {n : Nat} (hlen : band.length = 2 * n)
    (hlen' : band'.length = 2 * n) :
    barBand font disp clock nowMs band = barBand font disp clock nowMs band' := by
  unfold barBand
  rw [fillColor_eq hlen, fillColor_eq hlen']

theorem pushBar_eq (font : Font) (disp : Display) (clock : Ntp.Clock) (nowMs : UInt32)
    (hband : HasBand ui.renderer) :
    exists band, HasBand { ui.renderer with band := band } ∧
      pushBar font disp clock nowMs ui =
        ((ui.screen.push barWindow (barPicture font disp clock nowMs)).1,
          { renderer :=
              { ui.renderer with
                band := band
                barKey :=
                  if (ui.screen.push barWindow (barPicture font disp clock nowMs)).1 then
                    barKey disp clock nowMs
                  else ui.renderer.barKey }
            screen := (ui.screen.push barWindow (barPicture font disp clock nowMs)).2 }) := by
  have htake : ui.renderer.band.take (screenW * barH * 2) = ui.renderer.band := by
    apply List.take_of_length_le
    rw [hband]
  have hscratch : (List.replicate (screenW * barH * 2) (0 : UInt8)).length =
      2 * (screenW * barH) := by
    rw [List.length_replicate]
    exact Nat.mul_comm _ _
  have hfull : ui.renderer.band.length = 2 * (screenW * barH) := by
    rw [hband]
    exact Nat.mul_comm _ _
  have hlen : (barBand font disp clock nowMs ui.renderer.band).length =
      barWindow.w * barWindow.h * 2 := by
    rw [length_barBand, fillColor_eq hfull, length_solid]
    exact Nat.mul_comm _ _
  have hpush : ui.screen.pushBand barWindow
      (barBand font disp clock nowMs ui.renderer.band) =
        ui.screen.push barWindow (barPicture font disp clock nowMs) := by
    apply Screen.pushBand_eq _ hlen
    intro i j _
    rw [barBand_congr hfull hscratch]
    rfl
  refine ⟨splice ui.renderer.band 0
    (barBand font disp clock nowMs ui.renderer.band), ?_, ?_⟩
  · unfold HasBand at hband ⊢
    rw [← hband]
    exact length_splice (by rw [hlen, hband]; exact Nat.le_of_eq (Nat.zero_add _))
  · unfold pushBar
    unfold barWindow at hpush ⊢
    simp only [htake, hpush]
    cases (ui.screen.push { x := 0, y := 0, w := screenW, h := barH }
      (barPicture font disp clock nowMs)).1 <;> rfl

theorem clearNext_eq (hband : HasBand ui.renderer) :
    exists band, HasBand { ui.renderer with band := band } ∧
      clearNext ui =
        { renderer :=
            afterClear
              { ui.renderer with
                band := band
                clearRow := ui.renderer.clearRow + (clearWindow ui.renderer).h }
          screen := (ui.screen.push (clearWindow ui.renderer) (fun _ _ => black)).2 } := by
  have hlen : (List.replicate (screenW * min lineH (240 - ui.renderer.clearRow) * 2)
      (0 : UInt8)).length =
        (clearWindow ui.renderer).w * (clearWindow ui.renderer).h * 2 :=
    List.length_replicate
  have hpush : ui.screen.pushBand (clearWindow ui.renderer)
      (List.replicate (screenW * min lineH (240 - ui.renderer.clearRow) * 2) 0) =
        ui.screen.push (clearWindow ui.renderer) (fun _ _ => black) := by
    apply Screen.pushBand_eq _ hlen
    intro i j _
    exact colorAt_replicate _ _
  refine ⟨splice ui.renderer.band 0
    (List.replicate (screenW * min lineH (240 - ui.renderer.clearRow) * 2) 0), ?_, ?_⟩
  · unfold HasBand at hband ⊢
    rw [← hband]
    apply length_splice
    rw [List.length_replicate, hband]
    unfold screenW lineH barH
    omega
  · unfold clearNext afterClear
    unfold clearWindow at hpush ⊢
    simp only [hpush]
    split <;> rfl

structure Cleared (ui ui' : Ui) : Prop where
  band : HasBand ui'.renderer
  startMs : ui'.renderer.startMs = ui.renderer.startMs
  clearRow : ui'.renderer.clearRow = ui.renderer.clearRow + (clearWindow ui.renderer).h
  screen : ui'.screen = (ui.screen.push (clearWindow ui.renderer) (fun _ _ => black)).2
  done : 240 ≤ ui'.renderer.clearRow ->
    ui'.renderer.taken = true ∧ ui'.renderer.drawn = (fun _ => Slot.default) ∧
      ui'.renderer.barKey = UInt64.size - 1
  more : ui'.renderer.clearRow < 240 ->
    ui'.renderer.taken = ui.renderer.taken ∧ ui'.renderer.drawn = ui.renderer.drawn ∧
      ui'.renderer.barKey = ui.renderer.barKey

theorem clearNext_cleared (hband : HasBand ui.renderer) : Cleared ui (clearNext ui) := by
  rcases clearNext_eq hband with ⟨band, hband', hclear⟩
  rw [hclear]
  unfold afterClear
  split
  · rename_i hdone
    exact ⟨hband', rfl, rfl, rfl, fun _ => ⟨rfl, rfl, rfl⟩,
      fun hmore => absurd hdone (Nat.not_le.mpr hmore)⟩
  · rename_i hmore
    exact ⟨hband', rfl, rfl, rfl, fun hdone => absurd hdone hmore, fun _ => ⟨rfl, rfl, rfl⟩⟩

end Bands

end Render
end TWA
