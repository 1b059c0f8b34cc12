import TWA.Render.Model

/-!
# Pictures of rows

The band of a row holds, for any part of the row, the pixels that the whole row
has there.  If a text only got longer, its picture differs from the old one just
between the old end of the text and the new one.
-/

namespace TWA

open Foundation
open Foundation.Pixels
open Screen (screenW)

/-- The font places its characters one after the other: a text is as wide as its
characters together, and a text that fits is drawn glyph by glyph, each within its
advance. -/
structure Font.Typesets (font : Font) (advance : Char -> Nat)
    (glyph : Char -> List (Int × Int)) : Prop where
  textWidth_eq : forall text, font.textWidth text = (text.map advance).sum
  glyph_inside : forall c p, p ∈ glyph c -> 0 ≤ p.1 ∧ p.1 < advance c
  pixels_iff : forall text limit x y, font.textWidth text ≤ limit ->
    ((x, y) ∈ font.forEachPixel text limit <->
      exists pre c post, text = pre ++ c :: post ∧ (x - font.textWidth pre, y) ∈ glyph c)

namespace Render

variable {font : Font} {advance : Char -> Nat} {glyph : Char -> List (Int × Int)}

/-! ## Widths and foreground pixels -/

section Texts

variable {s t : Text} {limit x y : Int}

theorem textWidth_append (hfont : font.Typesets advance glyph) (s t : Text) :
    font.textWidth (s ++ t) = font.textWidth s + font.textWidth t := by
  rw [hfont.textWidth_eq, hfont.textWidth_eq, hfont.textWidth_eq, List.map_append,
    List.sum_append, Int.natCast_add]

theorem textWidth_nonneg (hfont : font.Typesets advance glyph) (t : Text) :
    0 ≤ font.textWidth t := by
  rw [hfont.textWidth_eq]
  exact Int.natCast_nonneg _

theorem pixel_bounds (hfont : font.Typesets advance glyph)
    (hfits : font.textWidth t ≤ limit) (h : (x, y) ∈ font.forEachPixel t limit) :
    0 ≤ x ∧ x < font.textWidth t := by
  rcases (hfont.pixels_iff t limit x y hfits).mp h with ⟨pre, c, post, htext, hglyph⟩
  have hinside := hfont.glyph_inside c _ hglyph
  have hpre := textWidth_nonneg hfont pre
  have hpost := textWidth_nonneg hfont post
  have hwidth : font.textWidth t =
      font.textWidth pre + (advance c + font.textWidth post) := by
    have hc : font.textWidth (c :: post) = advance c + font.textWidth post := by
      rw [hfont.textWidth_eq, hfont.textWidth_eq, List.map_cons, List.sum_cons,
        Int.natCast_add]
    rw [htext, textWidth_append hfont, hc]
  simp only at hinside
  omega

theorem pixel_append_iff (hfont : font.Typesets advance glyph)
    (hfits : font.textWidth (s ++ t) ≤ limit) (hx : x < font.textWidth s) :
    (x, y) ∈ font.forEachPixel (s ++ t) limit <-> (x, y) ∈ font.forEachPixel s limit := by
  have happend := textWidth_append hfont s t
  have hnonneg := textWidth_nonneg hfont t
  rw [hfont.pixels_iff _ _ _ _ hfits, hfont.pixels_iff s limit x y (by omega)]
  constructor
  · intro h
    rcases h with ⟨pre, c, post, htext, hglyph⟩
    rcases List.append_eq_append_iff.mp htext with ⟨r, hpre, hr⟩ | ⟨r, hs, hr⟩
    · have hinside := hfont.glyph_inside c _ hglyph
      have hwidth := textWidth_append hfont s r
      have hr := textWidth_nonneg hfont r
      rw [hpre] at hinside
      simp only at hinside
      omega
    · cases r with
      | nil =>
          have hinside := hfont.glyph_inside c _ hglyph
          rw [List.append_nil] at hs
          rw [← hs] at hinside
          simp only at hinside
          omega
      | cons c' r =>
          rw [List.cons_append, List.cons.injEq] at hr
          rw [← hr.1] at hs
          exact ⟨pre, c, r, hs, hglyph⟩
  · intro h
    rcases h with ⟨pre, c, post, htext, hglyph⟩
    exact ⟨pre, c, post ++ t, by rw [htext, List.append_assoc, List.cons_append], hglyph⟩

end Texts

/-! ## The picture of a row -/

/-- A text whose left end is at column zero has a foreground pixel here. -/
def Inked (font : Font) (text : Text) (x y : Int) : Prop :=
  text ≠ [] ∧ (x, y) ∈ font.forEachPixel text Display.subW

instance (font : Font) (text : Text) (x y : Int) : Decidable (Inked font text x y) :=
  inferInstanceAs (Decidable (_ ∧ _))

def rowPicture (font : Font) (slot : Slot) (x y : Int) : UInt16 :=
  if slot.caret = true ∧
      Inked font ['_'] (x - textX - font.textWidth slot.txt) (y - textTop) then
    caretColor
  else if Inked font slot.txt (x - textX) (y - textTop) then
    slot.col
  else
    black

section Pictures

variable {slot d wanted : Slot} {w : Nat} {sx0 : Int} {band : List UInt8}

theorem length_rowBand (font : Font) (slot : Slot) (sx0 : Int)
    (hlen : band.length = w * lineH * 2) :
    (rowBand font slot sx0 w band).length = w * lineH * 2 := by
  have hsolid : (fillColor black band).length = w * lineH * 2 := by
    rw [fillColor_eq (n := w * lineH) (by omega), length_solid]
    omega
  unfold rowBand
  simp only
  split <;> simp [hsolid]

theorem pixel_rowBand (hlen : band.length = w * lineH * 2) {x y : Nat} (hx : x < w)
    (hy : y < lineH) :
    pixel w (rowBand font slot sx0 w band) x y = rowPicture font slot (sx0 + x) y := by
  have hfill : fillColor black band = solid (w * lineH) black :=
    fillColor_eq (by omega)
  have hsolid : (solid (w * lineH) black).length = w * lineH * 2 := by
    rw [length_solid]
    omega
  have hcolumn : (x : Int) - (textX - sx0) = sx0 + x - textX := by omega
  have hcaret : (x : Int) - (font.textWidth slot.txt + (textX - sx0)) =
      sx0 + x - textX - font.textWidth slot.txt := by omega
  have htext : pixel w
      (raster font w slot.txt slot.col (textX - sx0) (solid (w * lineH) black)) x y =
      if Inked font slot.txt (sx0 + x - textX) (y - textTop) then slot.col else black := by
    rw [pixel_raster hsolid hx hy, pixel_solid hx hy, hcolumn]
    rfl
  unfold rowBand rowPicture
  simp only [hfill]
  cases slot.caret with
  | false =>
      simp only [Bool.false_eq_true, false_and, if_false]
      exact htext
  | true =>
      simp only [true_and, if_true]
      rw [pixel_raster (by rw [length_raster, hsolid]) hx hy, htext, hcaret]
      rfl

theorem rowPicture_blank (htxt : slot.txt = []) (hcaret : slot.caret = false)
    (x y : Int) : rowPicture font slot x y = black := by
  unfold rowPicture
  simp only [hcaret, Bool.false_eq_true, false_and, if_false]
  exact if_neg (fun h => h.1 htxt)

/-- The fast path may be taken only by a row that extends its snapshot. -/
theorem canExtend_iff : canExtend font d wanted = true <->
    wanted.caret = false ∧ d.caret = false ∧ d.col = wanted.col ∧ d.txt ≠ [] ∧
      d.txt <+: wanted.txt ∧ font.textWidth d.txt < font.textWidth wanted.txt ∧
      font.textWidth wanted.txt ≤ Display.subW := by
  simp [canExtend, extFastPath, and_assoc]

/-- A longer text differs from the old one only between their ends. -/
theorem rowPicture_extend (hfont : font.Typesets advance glyph)
    (h : canExtend font d wanted = true) {x y : Int}
    (hx : ¬(textX + font.textWidth d.txt ≤ x ∧ x < textX + font.textWidth wanted.txt)) :
    rowPicture font d x y = rowPicture font wanted x y := by
  rcases canExtend_iff.mp h with ⟨hcaret, hdcaret, hcol, htxt, ⟨t, ht⟩, hlonger, hfits⟩
  have hinked : Inked font d.txt (x - textX) (y - textTop) <->
      Inked font wanted.txt (x - textX) (y - textTop) := by
    unfold Inked
    rw [← ht] at hlonger hfits hx ⊢
    by_cases hleft : x - textX < font.textWidth d.txt
    · rw [pixel_append_iff hfont hfits hleft]
      constructor
      · intro h
        exact ⟨by simp [htxt], h.2⟩
      · intro h
        exact ⟨htxt, h.2⟩
    · constructor
      · intro h
        have hbounds := pixel_bounds hfont (by omega) h.2
        omega
      · intro h
        have hbounds := pixel_bounds hfont hfits h.2
        omega
  unfold rowPicture
  simp only [hdcaret, hcaret, Bool.false_eq_true, false_and, if_false, hcol]
  exact if_congr hinked rfl rfl

end Pictures

/-! ## A font of dots -/

def dots : Font where
  textWidth := fun text => text.length
  forEachPixel := fun text limit =>
    ((List.range text.length).map fun (k : Nat) => ((k : Int), (0 : Int))).filter
      fun p => p.1 < limit

theorem dots_typesets : dots.Typesets (fun _ => 1) (fun _ => [(0, 0)]) where
  textWidth_eq := by
    intro text
    rw [List.map_const', List.sum_replicate_nat, Nat.mul_one]
    rfl
  glyph_inside := by
    intro c p hp
    rw [List.mem_singleton.mp hp]
    decide
  pixels_iff := by
    intro text limit x y hfits
    unfold dots at hfits ⊢
    simp only at hfits ⊢
    rw [List.mem_filter, List.mem_map]
    constructor
    · intro h
      rcases h.1 with ⟨k, hk, hp⟩
      rw [List.mem_range] at hk
      rw [Prod.mk.injEq] at hp
      refine ⟨text.take k, text[k], text.drop (k + 1), ?_, ?_⟩
      · rw [List.getElem_cons_drop, List.take_append_drop]
      · rw [List.mem_singleton, List.length_take, Prod.mk.injEq]
        omega
    · intro h
      rcases h with ⟨pre, c, post, htext, hp⟩
      rw [List.mem_singleton, Prod.mk.injEq] at hp
      have hlen : text.length = pre.length + (post.length + 1) := by
        rw [htext, List.length_append, List.length_cons]
      constructor
      · refine ⟨pre.length, ?_, ?_⟩
        · rw [List.mem_range]
          omega
        · rw [Prod.mk.injEq]
          omega
      · rw [decide_eq_true_eq]
        omega

end Render
end TWA
