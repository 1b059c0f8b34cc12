import Mathlib.Tactic.Common

/-!
# Pixels in bytes

A band is a stretch of bytes, two for each pixel, with the high byte first.  A
panel is a function from coordinates to colours, and bands are written into
windows of it.
-/

namespace TWA
namespace Foundation
namespace Pixels

def hiByte (color : UInt16) : UInt8 :=
  (color >>> 8).toUInt8

def loByte (color : UInt16) : UInt8 :=
  color.toUInt8

def colorOf (hi lo : UInt8) : UInt16 :=
  UInt16.ofNat (hi.toNat * 256 + lo.toNat)

theorem toNat_bytes (n : UInt16) :
    (hiByte n).toNat * 256 + (loByte n).toNat = n.toNat := by
  have hlt := n.toNat_lt
  simp only [hiByte, loByte, UInt16.toNat_toUInt8, UInt16.toNat_shiftRight,
    UInt16.reduceToNat, Nat.shiftRight_eq_div_pow, Nat.reduceMod, Nat.reducePow]
  omega

theorem colorOf_bytes (color : UInt16) :
    colorOf (hiByte color) (loByte color) = color := by
  unfold colorOf
  rw [toNat_bytes]
  exact UInt16.ofNat_toNat

/-! ## Bands -/

def colorAt (band : List UInt8) (i : Nat) : UInt16 :=
  colorOf (band.getD (2 * i) 0) (band.getD (2 * i + 1) 0)

def setColor (band : List UInt8) (i : Nat) (color : UInt16) : List UInt8 :=
  (band.set (2 * i) (hiByte color)).set (2 * i + 1) (loByte color)

def solid (n : Nat) (color : UInt16) : List UInt8 :=
  (List.replicate n [hiByte color, loByte color]).flatten

section Bands

variable {band : List UInt8} {i j n : Nat} {color : UInt16}

@[simp] theorem length_setColor : (setColor band i color).length = band.length := by
  unfold setColor
  rw [List.length_set, List.length_set]

@[simp] theorem length_solid : (solid n color).length = 2 * n := by
  unfold solid
  rw [List.length_flatten, List.map_replicate, List.sum_replicate_nat]
  exact Nat.mul_comm n 2

theorem colorAt_setColor_self (h : 2 * i + 1 < band.length) :
    colorAt (setColor band i color) i = color := by
  have hhi : (setColor band i color).getD (2 * i) 0 = hiByte color := by
    unfold setColor
    rw [List.getD_eq_getElem?_getD, List.getElem?_set_ne (by omega),
      List.getElem?_set_self (by omega)]
    rfl
  have hlo : (setColor band i color).getD (2 * i + 1) 0 = loByte color := by
    unfold setColor
    rw [List.getD_eq_getElem?_getD, List.getElem?_set_self (by rw [List.length_set]; exact h)]
    rfl
  unfold colorAt
  rw [hhi, hlo]
  exact colorOf_bytes color

theorem colorAt_setColor_of_ne (h : i ≠ j) :
    colorAt (setColor band i color) j = colorAt band j := by
  unfold colorAt setColor
  simp only [List.getD_eq_getElem?_getD]
  rw [List.getElem?_set_ne (by omega), List.getElem?_set_ne (by omega),
    List.getElem?_set_ne (by omega), List.getElem?_set_ne (by omega)]

theorem solid_succ : solid (n + 1) color = hiByte color :: loByte color :: solid n color := by
  unfold solid
  rw [List.replicate_succ, List.flatten_cons]
  rfl

theorem solid_add (n m : Nat) (color : UInt16) :
    solid (n + m) color = solid n color ++ solid m color := by
  unfold solid
  rw [← List.replicate_append_replicate, List.flatten_append]

theorem flatten_replicate_solid (n m : Nat) (color : UInt16) :
    (List.replicate m (solid n color)).flatten = solid (n * m) color := by
  induction m with
  | zero => rfl
  | succ m ih =>
      rw [List.replicate_succ', List.flatten_append, ih, List.flatten_singleton, Nat.mul_succ,
        solid_add]

theorem take_setColor (h : 2 * i + 1 < band.length) :
    (setColor band i color).take (2 * (i + 1)) =
      band.take (2 * i) ++ [hiByte color, loByte color] := by
  have hhi : 2 * i < (band.set (2 * i) (hiByte color)).length := by
    rw [List.length_set]
    omega
  have hlo : 2 * i + 1 < ((band.set (2 * i) (hiByte color)).set (2 * i + 1)
      (loByte color)).length := by
    rw [List.length_set, List.length_set]
    exact h
  unfold setColor
  rw [Nat.mul_succ, ← List.take_append_getElem hlo, List.getElem_set_self,
    List.take_set_of_le (Nat.le_refl _), ← List.take_append_getElem hhi, List.getElem_set_self,
    List.take_set_of_le (Nat.le_refl _), List.append_assoc]
  rfl

theorem colorAt_solid (h : i < n) : colorAt (solid n color) i = color := by
  induction n generalizing i with
  | zero => exact absurd h (Nat.not_lt_zero i)
  | succ n ih =>
      rw [solid_succ]
      cases i with
      | zero => exact colorOf_bytes color
      | succ i => exact ih (Nat.lt_of_succ_lt_succ h)

theorem colorAt_replicate (n i : Nat) : colorAt (List.replicate n 0) i = 0 := by
  have hzero : forall k, (List.replicate n (0 : UInt8)).getD k 0 = 0 := by
    intro k
    rw [List.getD_eq_getElem?_getD, List.getElem?_replicate]
    split <;> rfl
  unfold colorAt
  rw [hzero, hzero]
  rfl

end Bands

/-! ## Panels -/

abbrev Panel := Nat -> Nat -> UInt16

structure Window where
  x : Nat
  y : Nat
  w : Nat
  h : Nat
  deriving DecidableEq, Repr

namespace Window

def Holds (win : Window) (i j : Nat) : Prop :=
  (win.x ≤ i ∧ i < win.x + win.w) ∧ win.y ≤ j ∧ j < win.y + win.h

instance (win : Window) (i j : Nat) : Decidable (win.Holds i j) :=
  inferInstanceAs (Decidable ((_ ∧ _) ∧ _ ∧ _))

end Window

def paste (win : Window) (pixels panel : Panel) : Panel :=
  fun i j => if win.Holds i j then pixels i j else panel i j

/-- A band read row by row as the pixels of a window. -/
def bandPixels (win : Window) (band : List UInt8) : Panel :=
  fun i j => colorAt band ((j - win.y) * win.w + (i - win.x))

def place (win : Window) (i j : Nat) : Nat :=
  (j - win.y) * win.w + (i - win.x)

section Panels

variable {win : Window} {pixels panel : Panel} {i j n : Nat}

theorem paste_of_holds (h : win.Holds i j) : paste win pixels panel i j = pixels i j :=
  if_pos h

theorem paste_of_not_holds (h : ¬win.Holds i j) :
    paste win pixels panel i j = panel i j :=
  if_neg h

theorem place_lt (h : win.Holds i j) : place win i j < win.w * win.h := by
  rcases h with ⟨⟨hx, hx'⟩, hy, hy'⟩
  have hrow : (j - win.y) * win.w + win.w ≤ win.h * win.w := by
    rw [← Nat.succ_mul]
    exact Nat.mul_le_mul_right win.w (by omega)
  unfold place
  rw [Nat.mul_comm win.w win.h]
  omega

theorem place_eq_iff (h : win.Holds i j) :
    place win i j = n <-> i = win.x + n % win.w ∧ j = win.y + n / win.w := by
  rcases h with ⟨⟨hx, hx'⟩, hy, hy'⟩
  have hcol : i - win.x < win.w := by omega
  unfold place
  constructor
  · intro hn
    rw [← hn, Nat.mul_add_mod_of_lt hcol, Nat.mul_comm, Nat.mul_add_div (by omega),
      Nat.div_eq_of_lt hcol]
    omega
  · rintro ⟨hi, hj⟩
    have hsum := Nat.div_add_mod n win.w
    rw [hi, hj, Nat.add_sub_cancel_left, Nat.add_sub_cancel_left, Nat.mul_comm]
    exact hsum

theorem holds_of_lt (hw : 0 < win.w) (h : n < win.w * win.h) :
    win.Holds (win.x + n % win.w) (win.y + n / win.w) := by
  have hcol := Nat.mod_lt n hw
  have hrow : n / win.w < win.h := Nat.div_lt_of_lt_mul h
  exact ⟨⟨Nat.le_add_right _ _, by omega⟩, Nat.le_add_right _ _, by omega⟩

theorem paste_solid (win : Window) (color : UInt16) (panel : Panel) :
    paste win (bandPixels win (solid (win.w * win.h) color)) panel =
      paste win (fun _ _ => color) panel := by
  funext i j
  unfold paste
  by_cases hholds : win.Holds i j
  · rw [if_pos hholds, if_pos hholds]
    exact colorAt_solid (place_lt hholds)
  · rw [if_neg hholds, if_neg hholds]

end Panels

end Pixels
end Foundation
end TWA
