import Mathlib.Algebra.GroupWithZero.Nat
import TWA.Display.Model
import TWA.Screen

/-!
# Drawing into a band

Texts, rectangles and lines are drawn pixel by pixel into a band that is filled
with the background first.  The font is a parameter.
-/

namespace TWA

open Foundation
open Foundation.Pixels

structure Font where
  textWidth : Text -> Int
  /-- The foreground pixels of a text; what lies beyond the width is cut off. -/
  forEachPixel : Text -> Int -> List (Int × Int)

namespace Render

def textX : Int := 4

def textTop : Int := 2

/-- Fill with one colour; an odd last byte is left alone. -/
def fillColor (color : UInt16) : List UInt8 -> List UInt8
  | _ :: _ :: rest => hiByte color :: loByte color :: fillColor color rest
  | rest => rest

/-- Pixels outside of the band are dropped. -/
def put (band : List UInt8) (stridePx : Nat) (x y : Int) (color : UInt16) :
    List UInt8 :=
  if x < 0 ∨ y < 0 then
    band
  else
    let rows := band.length / (stridePx * 2)
    if y.toNat ≥ rows ∨ x.toNat ≥ stridePx then
      band
    else
      setColor band (y.toNat * stridePx + x.toNat) color

def plot (w : Nat) (color : UInt16) (shift : Int) (band : List UInt8) (p : Int × Int) :
    List UInt8 :=
  let bx := p.1 + shift
  if bx < 0 ∨ bx ≥ w then
    band
  else
    put band w bx (p.2 + textTop) color

def raster (font : Font) (w : Nat) (text : Text) (color : UInt16) (shift : Int)
    (band : List UInt8) : List UInt8 :=
  if text = [] then
    band
  else
    (font.forEachPixel text Display.subW).foldl (plot w color shift) band

def fillRect (stride : Nat) (x y : Int) (rw rh : Nat) (c : UInt16)
    (band : List UInt8) : List UInt8 :=
  (List.range rh).foldl
    (fun band (yy : Nat) =>
      (List.range rw).foldl
        (fun band (xx : Nat) => put band stride (x + xx) (y + yy) c) band)
    band

def drawLineLoop (stride : Nat) (x1 y1 dx dy sx sy : Int) (c : UInt16) :
    Nat -> Int -> Int -> Int -> List UInt8 -> List UInt8
  | 0, _, _, _, band => band
  | fuel + 1, x, y, err, band =>
      let band := put band stride x y c
      if x = x1 ∧ y = y1 then
        band
      else
        let e2 := 2 * err
        let (err, x) := if e2 > -dy then (err - dy, x + sx) else (err, x)
        let (err, y) := if e2 < dx then (err + dx, y + sy) else (err, y)
        drawLineLoop stride x1 y1 dx dy sx sy c fuel x y err band

def drawLine (stride : Nat) (x0 y0 x1 y1 : Int) (c : UInt16) (band : List UInt8) :
    List UInt8 :=
  let dx := (x1 - x0).natAbs
  let dy := (y1 - y0).natAbs
  let sx := if x0 < x1 then 1 else -1
  let sy := if y0 < y1 then 1 else -1
  drawLineLoop stride x1 y1 dx dy sx sy c (dx + dy + 1) x0 y0 (dx - dy) band

/-!
## What is drawn

A band of full rows is read by column and row.
-/

def pixel (w : Nat) (band : List UInt8) (x y : Nat) : UInt16 :=
  colorAt band (y * w + x)

section Drawing

variable {w h : Nat} {band : List UInt8} {x y : Nat} {color : UInt16}

theorem fillColor_eq {n : Nat} (h : band.length = 2 * n) :
    fillColor color band = solid n color := by
  induction n generalizing band with
  | zero =>
      rw [List.length_eq_zero_iff.mp h]
      rfl
  | succ n ih =>
      rcases band with _ | ⟨a, _ | ⟨b, rest⟩⟩
      · simp at h
      · simp at h
        omega
      · rw [solid_succ, fillColor, ih]
        simp at h
        omega

@[simp] theorem length_put {x y : Int} : (put band w x y color).length = band.length := by
  unfold put
  split
  · rfl
  · simp only
    split
    · rfl
    · exact length_setColor

theorem index_inj {x' y' : Nat} (hx : x < w) (hx' : x' < w)
    (h : y * w + x = y' * w + x') : x = x' ∧ y = y' := by
  have hw : 0 < w := Nat.lt_of_le_of_lt (Nat.zero_le x) hx
  have hmod : (y * w + x) % w = (y' * w + x') % w := by rw [h]
  rw [Nat.mul_add_mod_of_lt hx, Nat.mul_add_mod_of_lt hx'] at hmod
  constructor
  · exact hmod
  · rw [hmod] at h
    exact Nat.eq_of_mul_eq_mul_right hw (Nat.add_right_cancel h)

theorem pixel_put (hlen : band.length = w * h * 2) (hx : x < w) (hy : y < h) {a b : Int} :
    pixel w (put band w a b color) x y =
      if a = x ∧ b = y then color else pixel w band x y := by
  have hrows : band.length / (w * 2) = h := by
    rw [hlen, Nat.mul_right_comm]
    exact Nat.mul_div_cancel_left h (by omega)
  unfold put
  by_cases hneg : a < 0 ∨ b < 0
  · rw [if_pos hneg, if_neg (by omega)]
  · rw [if_neg hneg, hrows]
    simp only
    by_cases hout : b.toNat ≥ h ∨ a.toNat ≥ w
    · rw [if_pos hout, if_neg (by omega)]
    · rw [if_neg hout]
      unfold pixel
      have hin : 2 * (b.toNat * w + a.toNat) + 1 < band.length := by
        have hb : b.toNat * w + w ≤ h * w := by
          rw [← Nat.succ_mul]
          exact Nat.mul_le_mul_right w (by omega)
        rw [hlen, Nat.mul_comm w h]
        omega
      by_cases hsame : a = x ∧ b = y
      · rw [if_pos hsame, hsame.1, hsame.2]
        rw [hsame.1, hsame.2] at hin
        exact colorAt_setColor_self hin
      · rw [if_neg hsame]
        apply colorAt_setColor_of_ne
        intro heq
        have hinj := index_inj (by omega) hx heq
        omega

theorem pixel_solid (hx : x < w) (hy : y < h) :
    pixel w (solid (w * h) color) x y = color := by
  apply colorAt_solid
  have hrow : y * w + w ≤ h * w := by
    rw [← Nat.succ_mul]
    exact Nat.mul_le_mul_right w hy
  rw [Nat.mul_comm w h]
  omega

theorem length_foldl {alpha : Type} {draw : List UInt8 -> alpha -> List UInt8}
    (hdraw : forall band a, (draw band a).length = band.length) (marks : List alpha)
    (band : List UInt8) : (marks.foldl draw band).length = band.length := by
  induction marks generalizing band with
  | nil => rfl
  | cons a marks ih =>
      rw [List.foldl_cons, ih, hdraw]

/-! ### Texts -/

section Texts

variable {font : Font} {text : Text} {shift : Int}

@[simp] theorem length_plot {p : Int × Int} :
    (plot w color shift band p).length = band.length := by
  unfold plot
  simp only
  split
  · rfl
  · exact length_put

@[simp] theorem length_raster :
    (raster font w text color shift band).length = band.length := by
  unfold raster
  split
  · rfl
  · exact length_foldl (fun _ _ => length_plot) _ _

theorem pixel_plot {p : Int × Int} (hlen : band.length = w * h * 2) (hx : x < w)
    (hy : y < h) :
    pixel w (plot w color shift band p) x y =
      if p = ((x : Int) - shift, (y : Int) - textTop) then color else pixel w band x y := by
  rcases p with ⟨a, b⟩
  unfold plot
  simp only [Prod.mk.injEq]
  by_cases hout : a + shift < 0 ∨ a + shift ≥ w
  · rw [if_pos hout, if_neg (by omega)]
  · rw [if_neg hout, pixel_put hlen hx hy]
    by_cases hsame : a + shift = x ∧ b + textTop = y
    · rw [if_pos hsame, if_pos (by omega)]
    · rw [if_neg hsame, if_neg (by omega)]

theorem pixel_plots (hx : x < w) (hy : y < h) (ps : List (Int × Int))
    (hlen : band.length = w * h * 2) :
    pixel w (ps.foldl (plot w color shift) band) x y =
      if ((x : Int) - shift, (y : Int) - textTop) ∈ ps then color
      else pixel w band x y := by
  induction ps generalizing band with
  | nil => simp
  | cons p ps ih =>
      rw [List.foldl_cons, ih (by rw [length_plot, hlen]), pixel_plot hlen hx hy]
      by_cases hrest : ((x : Int) - shift, (y : Int) - textTop) ∈ ps
      · rw [if_pos hrest, if_pos (List.mem_cons_of_mem p hrest)]
      · rw [if_neg hrest]
        by_cases hp : p = ((x : Int) - shift, (y : Int) - textTop)
        · rw [if_pos hp, if_pos (by rw [hp]; exact List.mem_cons_self)]
        · rw [if_neg hp, if_neg]
          intro hmem
          cases hmem with
          | head => exact hp rfl
          | tail _ hmem => exact hrest hmem

theorem pixel_raster (hlen : band.length = w * h * 2) (hx : x < w) (hy : y < h) :
    pixel w (raster font w text color shift band) x y =
      if text ≠ [] ∧
          ((x : Int) - shift, (y : Int) - textTop) ∈ font.forEachPixel text Display.subW
        then color
      else pixel w band x y := by
  unfold raster
  by_cases htext : text = []
  · rw [if_pos htext, if_neg (fun h => h.1 htext)]
  · rw [if_neg htext, pixel_plots hx hy _ hlen]
    by_cases hmem : ((x : Int) - shift, (y : Int) - textTop) ∈
        font.forEachPixel text Display.subW
    · rw [if_pos hmem, if_pos ⟨htext, hmem⟩]
    · rw [if_neg hmem, if_neg (fun h => hmem h.2)]

end Texts

/-! ### Rectangles and lines -/

@[simp] theorem length_fillRect {x y : Int} {rw' rh : Nat} :
    (fillRect w x y rw' rh color band).length = band.length :=
  length_foldl (fun band _ => length_foldl (fun _ _ => length_put) _ band) _ _

theorem length_drawLineLoop {x1 y1 dx dy sx sy : Int} (fuel : Nat) (x y err : Int)
    (band : List UInt8) :
    (drawLineLoop w x1 y1 dx dy sx sy color fuel x y err band).length = band.length := by
  induction fuel generalizing x y err band with
  | zero => rfl
  | succ fuel ih =>
      unfold drawLineLoop
      simp only
      split
      · exact length_put
      · rw [ih, length_put]

@[simp] theorem length_drawLine {x0 y0 x1 y1 : Int} :
    (drawLine w x0 y0 x1 y1 color band).length = band.length :=
  length_drawLineLoop _ _ _ _ _

end Drawing

end Render
end TWA
