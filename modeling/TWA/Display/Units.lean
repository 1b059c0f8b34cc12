import TWA.Display.Model

/-!
# Reveal units

The byte scan of the typewriter tick is related to a segmentation of characters:
`revealUnit` is the unit the tick reveals, and the offset that the scan computes
is exactly the byte length of that unit.  So the cut is always on a character
boundary, and a nonempty text has a nonempty unit.
-/

namespace TWA

open Foundation
open Foundation.Exec

namespace Display

def revealUnit (t : Text) : Text :=
  let spaces := t.takeWhile (Utf8.onChar isSpace)
  match t.dropWhile (Utf8.onChar isSpace) with
  | [] => spaces
  | ch :: rest =>
      if Utf8.onChar isAsciiGraphic ch then
        let word := (ch :: rest).takeWhile (Utf8.onChar isAsciiGraphic)
        let tail := (ch :: rest).dropWhile (Utf8.onChar isAsciiGraphic)
        spaces ++ word ++ tail.takeWhile (Utf8.onChar isSpace)
      else
        spaces ++ [ch]

theorem isSpace_ascii (b : UInt8) (h : isSpace b = true) : b.toNat < 128 := by
  simp only [isSpace, beq_iff_eq] at h
  rw [h]
  decide

theorem isAsciiGraphic_ascii (b : UInt8) (h : isAsciiGraphic b = true) :
    b.toNat < 128 := by
  simp only [isAsciiGraphic, Bool.and_eq_true, decide_eq_true_eq] at h
  have hle := UInt8.le_iff_toNat_le.mp h.2
  exact Nat.lt_of_le_of_lt hle (by decide)

theorem revealUnit_prefix (t : Text) : revealUnit t <+: t := by
  have hsplit := List.takeWhile_append_dropWhile
    (p := Utf8.onChar isSpace) (l := t)
  unfold revealUnit
  simp only
  split
  · exact List.takeWhile_prefix _
  · rename_i ch rest hdrop
    rw [hdrop] at hsplit
    split
    · have hword := List.takeWhile_append_dropWhile
        (p := Utf8.onChar isAsciiGraphic) (l := ch :: rest)
      have htail := List.takeWhile_append_dropWhile
        (p := Utf8.onChar isSpace)
        (l := (ch :: rest).dropWhile (Utf8.onChar isAsciiGraphic))
      refine ⟨((ch :: rest).dropWhile (Utf8.onChar isAsciiGraphic)).dropWhile
        (Utf8.onChar isSpace), ?_⟩
      rw [List.append_assoc, List.append_assoc, htail, hword, hsplit]
    · refine ⟨rest, ?_⟩
      rw [List.append_assoc, List.singleton_append, hsplit]

theorem revealUnit_ne_nil {t : Text} (h : t ≠ []) : revealUnit t ≠ [] := by
  have hsplit := List.takeWhile_append_dropWhile
    (p := Utf8.onChar isSpace) (l := t)
  unfold revealUnit
  simp only
  split
  · rename_i hdrop
    rw [hdrop, List.append_nil] at hsplit
    rw [hsplit]
    exact h
  · split
    · rename_i hgraphic
      simp [hgraphic]
    · simp

theorem unitLength_eq (t : Text) :
    unitLength t = .ok (Utf8.encode (revealUnit t)).length := by
  have hsplit := List.takeWhile_append_dropWhile
    (p := Utf8.onChar isSpace) (l := t)
  have hspaces : advanceWhile isSpace (Utf8.encode t) 0 =
      .ok (Utf8.encode (t.takeWhile (Utf8.onChar isSpace))).length := by
    simpa using Utf8.advanceWhile_encode isSpace_ascii [] t
  unfold unitLength revealUnit
  simp only [hspaces, ok_bind]
  generalize t.takeWhile (Utf8.onChar isSpace) = spaces at *
  cases hdrop : t.dropWhile (Utf8.onChar isSpace) with
  | nil =>
      rw [hdrop, List.append_nil] at hsplit
      subst hsplit
      simp
  | cons ch rest =>
      rw [hdrop] at hsplit
      subst hsplit
      have hlt : (Utf8.encode spaces).length <
          (Utf8.encode (spaces ++ ch :: rest)).length := by
        have hpos := ch.utf8Size_pos
        simp
        omega
      rcases Utf8.index_encode_first isAsciiGraphic_ascii spaces ch rest with
        ⟨b, hindex, hb⟩
      simp only [if_pos hlt, hindex, ok_bind, hb]
      by_cases hgraphic : Utf8.onChar isAsciiGraphic ch = true
      · -- a word: the two scans that follow end on character boundaries
        simp only [if_pos hgraphic]
        have hword := Utf8.advanceWhile_encode isAsciiGraphic_ascii spaces
          (ch :: rest)
        have hcut := List.takeWhile_append_dropWhile
          (p := Utf8.onChar isAsciiGraphic) (l := ch :: rest)
        have htail := Utf8.advanceWhile_encode isSpace_ascii
          (spaces ++ (ch :: rest).takeWhile (Utf8.onChar isAsciiGraphic))
          ((ch :: rest).dropWhile (Utf8.onChar isAsciiGraphic))
        rw [List.append_assoc, hcut] at htail
        rw [hword, ok_bind, htail]
      · simp only [if_neg hgraphic, Utf8.splitAt_encode, ok_bind]
        simp

end Display
end TWA
