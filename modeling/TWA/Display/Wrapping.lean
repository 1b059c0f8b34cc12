import TWA.Display.RowWidth

/-!
# Greedy wrapping

A greedy wrap breaks a text at its newlines, and elsewhere only where the next character
would make the row too wide.  Wrapping a text gives such a wrap of it.
-/

namespace TWA

open Foundation

namespace Display

/-- The rows of a greedy wrap of a text. -/
inductive GreedyWrap (textWidth : Text -> Int) : Text -> List Text -> Prop where
  | last (row : Text) (hline : '\n' ∉ row) : GreedyWrap textWidth row [row]
  | newline {rest : Text} {rows : List Text} (row : Text) (hline : '\n' ∉ row)
      (hrest : GreedyWrap textWidth rest rows) :
      GreedyWrap textWidth (row ++ '\n' :: rest) (row :: rows)
  | forced {rest : Text} {rows : List Text} (row : Text) (ch : Char) (hline : '\n' ∉ row)
      (hch : ch ≠ '\n') (hfull : textWidth row + textWidth [ch] > subW)
      (hrest : GreedyWrap textWidth (ch :: rest) rows) :
      GreedyWrap textWidth (row ++ ch :: rest) (row :: rows)

namespace GreedyWrap

variable {textWidth : Text -> Int} {text : Text} {rows : List Text}

theorem filter_of_notMem {row : Text} (h : '\n' ∉ row) :
    row.filter (fun ch => ch ≠ '\n') = row := by
  apply List.filter_eq_self.mpr
  intro ch hch
  have hne : ch ≠ '\n' := fun heq => h (heq ▸ hch)
  exact decide_eq_true hne

theorem flatten_eq (h : GreedyWrap textWidth text rows) :
    rows.flatten = text.filter (fun ch => ch ≠ '\n') := by
  induction h with
  | last row hline => rw [List.flatten_singleton, filter_of_notMem hline]
  | newline row hline _ ih =>
      rw [List.flatten_cons, ih, List.filter_append, filter_of_notMem hline]
      rfl
  | forced row ch hline _ _ _ ih =>
      rw [List.flatten_cons, ih, List.filter_append, filter_of_notMem hline]

theorem count_lt_length (h : GreedyWrap textWidth text rows) :
    text.count '\n' + 1 ≤ rows.length := by
  induction h with
  | last row hline => rw [List.count_eq_zero_of_not_mem hline, List.length_singleton]
  | newline row hline _ ih =>
      rw [List.count_append, List.count_eq_zero_of_not_mem hline, List.count_cons_self,
        List.length_cons]
      omega
  | forced row ch hline _ _ _ ih =>
      rw [List.count_append, List.count_eq_zero_of_not_mem hline, List.length_cons]
      omega

end GreedyWrap

section Wrapping

variable {textWidth : Text -> Int}

variable (textWidth) in
theorem wrapLoop_greedy (text : Text) (out : List Text) {cur : Text} (hcur : '\n' ∉ cur) :
    exists rows, wrapLoop textWidth text out cur = out ++ rows ∧
      GreedyWrap textWidth (cur ++ text) rows := by
  induction text generalizing out cur with
  | nil =>
      refine ⟨[cur], rfl, ?_⟩
      rw [List.append_nil]
      exact .last cur hcur
  | cons ch rest ih =>
      rw [wrapLoop]
      by_cases hbreak : ch = '\n'
      · rcases ih (out ++ [cur]) List.not_mem_nil with ⟨rows, hloop, hwrap⟩
        refine ⟨cur :: rows, ?_, ?_⟩
        · rw [if_pos hbreak, hloop, List.append_assoc]
          rfl
        · rw [hbreak]
          exact .newline cur hcur hwrap
      · rw [if_neg hbreak]
        by_cases hfull : textWidth cur + textWidth [ch] > subW ∧ cur ≠ []
        · have hone : '\n' ∉ [ch] := fun hmem => hbreak (List.mem_singleton.mp hmem).symm
          rcases ih (out ++ [cur]) hone with ⟨rows, hloop, hwrap⟩
          refine ⟨cur :: rows, ?_, .forced cur ch hcur hbreak hfull.1 hwrap⟩
          rw [if_pos hfull, hloop, List.append_assoc]
          rfl
        · have hlonger : '\n' ∉ cur ++ [ch] := by
            rw [List.mem_append, List.mem_singleton]
            rintro (hmem | hmem)
            · exact hcur hmem
            · exact hbreak hmem.symm
          rcases ih out hlonger with ⟨rows, hloop, hwrap⟩
          refine ⟨rows, ?_, ?_⟩
          · rw [if_neg hfull, hloop]
          · rw [List.append_cons]
            exact hwrap

theorem wrapToLines_greedy (textWidth : Text -> Int) (text : Text) :
    GreedyWrap textWidth text (wrapToLines textWidth text) := by
  rcases wrapLoop_greedy textWidth text [] List.not_mem_nil with
    ⟨rows, hloop, hwrap⟩
  unfold wrapToLines
  rw [hloop]
  exact hwrap

/-- Wrapping loses nothing but the newlines, each of which starts a row; the rows fit, and
a break elsewhere is made only where the next character would not have fitted. -/
theorem wrapToLines_faithful
    (hadditive : forall s t, textWidth (s ++ t) = textWidth s + textWidth t) (text : Text) :
    (wrapToLines textWidth text).flatten = text.filter (fun ch => ch ≠ '\n') ∧
      text.count '\n' + 1 ≤ (wrapToLines textWidth text).length ∧
        (forall row, row ∈ wrapToLines textWidth text ->
          textWidth row ≤ subW ∨ row.length = 1) ∧
          GreedyWrap textWidth text (wrapToLines textWidth text) := by
  have hwrap := wrapToLines_greedy textWidth text
  refine ⟨hwrap.flatten_eq, hwrap.count_lt_length, ?_, hwrap⟩
  exact wrapLoop_fits hadditive text [] [] (fun row hrow => (List.not_mem_nil hrow).elim)
    (rowFits_nil hadditive)

theorem wrapToLines_faithful_cells :
    GreedyWrap cellWidth ['a', '\n', '\n', 'b', '\n']
        (wrapToLines cellWidth ['a', '\n', '\n', 'b', '\n']) ∧
      4 ≤ (wrapToLines cellWidth ['a', '\n', '\n', 'b', '\n']).length := by
  have hwrap := wrapToLines_faithful cellWidth_append ['a', '\n', '\n', 'b', '\n']
  exact ⟨hwrap.2.2.2, hwrap.2.1⟩

end Wrapping

end Display
end TWA
