import TWA.Display.Model

/-!
# The full reply

When a reply is complete, its full text is reconciled with what the deltas have
brought.  This module says when that leaves the subtitles as they are.
-/

namespace TWA

open Foundation

namespace Display

variable (textWidth : Text -> Int) (text : Text) (d : Display)

/-- The full text changes nothing that is shown or left to type: it is just what the
deltas have brought, or else the text that is about to be typed anyway, on a new row,
and freezing it would not be seen in the history. -/
def FullTextShown : Prop :=
  if d.streamMode = true ∧ d.streamQueued <+: text then
    text = d.streamQueued
  else
    d.typingRest = text ∧ d.curLine = [] ∧
      (text = [] ∨
        trimHistory (d.history ++ displayRows textWidth text d.curColor) = d.history)

theorem flushTyping_history :
    (flushTyping textWidth d).history =
      if d.typingRest = [] ∧ d.curLine = [] then d.history
      else
        trimHistory
          (d.history ++ displayRows textWidth (d.curLine ++ d.typingRest) d.curColor) := by
  unfold flushTyping
  by_cases hempty : d.typingRest = [] ∧ d.curLine = []
  · simp only [if_pos hempty]
  · simp only [if_neg hempty]
    rfl

theorem setReplyFullText_extends (hextends : d.streamMode = true ∧ d.streamQueued <+: text) :
    setReplyFullText textWidth text d =
      { d with
        typingRest := d.typingRest ++ text.drop d.streamQueued.length
        streamMode := false
        streamQueued := [] } := by
  unfold setReplyFullText
  rw [if_pos hextends]
  by_cases hlonger : text.length > d.streamQueued.length
  · rw [if_pos hlonger]
  · have hnothing : text.drop d.streamQueued.length = [] :=
      List.drop_eq_nil_iff.mpr (Nat.le_of_not_lt hlonger)
    rw [if_neg hlonger, hnothing, List.append_nil]

theorem setReplyFullText_shown :
    ((setReplyFullText textWidth text d).history = d.history ∧
      (setReplyFullText textWidth text d).curLine = d.curLine ∧
      (setReplyFullText textWidth text d).typingRest = d.typingRest) <->
      FullTextShown textWidth text d := by
  unfold FullTextShown
  by_cases hextends : d.streamMode = true ∧ d.streamQueued <+: text
  · rw [if_pos hextends, setReplyFullText_extends textWidth text d hextends]
    rcases hextends.2 with ⟨rest, hrest⟩
    have hdrop : text.drop d.streamQueued.length = rest := by
      rw [← hrest, List.drop_left]
    simp only [hdrop, List.append_right_eq_self, true_and]
    rw [← hrest, List.append_right_eq_self]
  · have hretype : setReplyFullText textWidth text d =
        beginReplyTypewriter textWidth text d :=
      if_neg hextends
    rw [if_neg hextends, hretype]
    simp only [beginReplyTypewriter, flushTyping_history]
    constructor
    · intro hsame
      rcases hsame with ⟨hhistory, hcur, hrest⟩
      rw [← hcur, ← hrest] at hhistory
      refine ⟨hrest.symm, hcur.symm, ?_⟩
      by_cases hempty : text = []
      · exact Or.inl hempty
      · rw [if_neg fun h => hempty h.1] at hhistory
        exact Or.inr hhistory
    · intro hshown
      rcases hshown with ⟨hrest, hcur, hhistory⟩
      refine ⟨?_, hcur.symm, hrest.symm⟩
      rw [hcur, hrest]
      rcases hhistory with rfl | hhistory
      · rw [if_pos ⟨rfl, rfl⟩]
      · split
        · rfl
        · exact hhistory

end Display
end TWA
