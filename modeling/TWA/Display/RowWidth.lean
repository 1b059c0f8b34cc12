import TWA.Display.Typewriter
import TWA.Foundation.Runs

/-!
# Row widths

Wrapping measures a row before every character, so that a row is too wide only
if it is a single character.  The typewriter measures before every reveal unit,
and a unit may be a word of any length.  This module shows that the second
measurement is the only way to a row that does not fit.
-/

namespace TWA

open Foundation
open Foundation.Exec

namespace Display

inductive SubtitleCall where
  | call (c : Call)
  | setReplyFullText (full : Text)

namespace SubtitleCall

def run (textWidth : Text -> Int) : SubtitleCall -> Display -> Exec Display
  | call c, d => c.run textWidth d
  | setReplyFullText full, d => .ok (Display.setReplyFullText textWidth full d)

end SubtitleCall

def subtitleStep (textWidth : Text -> Int) (call : SubtitleCall)
    (d d' : Display) : Prop :=
  call.run textWidth d = .ok d'

/-- The row is no wider than the usable width, or it is a single character. -/
def RowFits (textWidth : Text -> Int) (row : Text) : Prop :=
  textWidth row ≤ subW ∨ row.length = 1

def RowsFit (textWidth : Text -> Int) (d : Display) : Prop :=
  RowFits textWidth d.curLine ∧
    forall line, line ∈ d.history -> RowFits textWidth line.text

/-- The unit that a due tick reveals fits behind the row being typed, or it fits as a
row of its own. -/
def RevealsFittingUnit (textWidth : Text -> Int) (call : SubtitleCall)
    (d : Display) : Prop :=
  match call with
  | .call (.tick nowMs) =>
      Due nowMs d ->
        (d.curLine ≠ [] ∧
          textWidth d.curLine + textWidth (revealUnit d.typingRest) ≤ subW) ∨
          RowFits textWidth (revealUnit d.typingRest)
  | _ => True

section Widths

variable {textWidth : Text -> Int}
  (hadditive : forall s t, textWidth (s ++ t) = textWidth s + textWidth t)

include hadditive

theorem textWidth_nil : textWidth [] = 0 := by
  have h := hadditive [] []
  rw [List.append_nil] at h
  omega

theorem rowFits_nil : RowFits textWidth [] := by
  left
  rw [textWidth_nil hadditive]
  decide

theorem wrapLoop_fits (text : Text) (out : List Text) (cur : Text)
    (hout : forall row, row ∈ out -> RowFits textWidth row)
    (hcur : RowFits textWidth cur) :
    forall row, row ∈ wrapLoop textWidth text out cur -> RowFits textWidth row := by
  induction text generalizing out cur with
  | nil =>
      intro row hrow
      cases List.mem_append.mp hrow with
      | inl hold => exact hout row hold
      | inr hlast =>
          rw [List.mem_singleton.mp hlast]
          exact hcur
  | cons ch rest ih =>
      have hclosed : forall row, row ∈ out ++ [cur] -> RowFits textWidth row := by
        intro row hrow
        cases List.mem_append.mp hrow with
        | inl hold => exact hout row hold
        | inr hlast =>
            rw [List.mem_singleton.mp hlast]
            exact hcur
      rw [wrapLoop]
      split
      · exact ih _ _ hclosed (rowFits_nil hadditive)
      · split
        · exact ih _ _ hclosed (Or.inr rfl)
        · rename_i hroom
          apply ih _ _ hout
          by_cases hempty : cur = []
          · right
            rw [hempty]
            rfl
          · left
            rw [hadditive]
            have hnarrow : ¬ textWidth cur + textWidth [ch] > subW :=
              fun hwide => hroom ⟨hwide, hempty⟩
            omega

theorem displayRows_fits (text : Text) (color : UInt16) :
    forall line, line ∈ displayRows textWidth text color ->
      RowFits textWidth line.text := by
  intro line hline
  unfold displayRows at hline
  rcases List.mem_map.mp hline with ⟨seg, hseg, rfl⟩
  by_cases hempty : seg = []
  · right
    simp [hempty]
  · simp only [if_neg hempty]
    exact wrapLoop_fits hadditive text [] [] (by simp) (rowFits_nil hadditive) seg hseg

/-!
## What each call does to the rows
-/

variable {d : Display}

theorem pushLine_history_fits (text : Text) (color : UInt16)
    (h : forall line, line ∈ d.history -> RowFits textWidth line.text) :
    forall line, line ∈ (pushLine textWidth text color d).history ->
      RowFits textWidth line.text := by
  intro line hline
  have hkept := List.mem_of_mem_drop hline
  cases List.mem_append.mp hkept with
  | inl hold => exact h line hold
  | inr hnew => exact displayRows_fits hadditive text color line hnew

theorem flushTyping_fits (h : RowsFit textWidth d) :
    RowsFit textWidth (flushTyping textWidth d) := by
  constructor
  · rw [(flushTyping_buffers textWidth).2]
    exact rowFits_nil hadditive
  · unfold flushTyping
    simp only
    split
    · exact h.2
    · exact pushLine_history_fits hadditive _ _ h.2

theorem addUserLine_fits (text : Text) (h : RowsFit textWidth d) :
    RowsFit textWidth (addUserLine textWidth text d) := by
  have hflush := flushTyping_fits hadditive h
  constructor
  · exact hflush.1
  · exact pushLine_history_fits hadditive _ _ hflush.2

theorem beginReplyTypewriter_fits (text : Text) (h : RowsFit textWidth d) :
    RowsFit textWidth (beginReplyTypewriter textWidth text d) := by
  constructor
  · exact rowFits_nil hadditive
  · exact (flushTyping_fits hadditive h).2

theorem beginReplyStream_fits (h : RowsFit textWidth d) :
    RowsFit textWidth (beginReplyStream textWidth d) := by
  constructor
  · exact rowFits_nil hadditive
  · exact (flushTyping_fits hadditive h).2

theorem appendReplyDelta_fits (delta : Text) (h : RowsFit textWidth d) :
    RowsFit textWidth (appendReplyDelta textWidth delta d) := by
  unfold appendReplyDelta
  split
  · exact h
  · split
    · exact beginReplyStream_fits hadditive h
    · exact h

theorem setReplyFullText_fits (full : Text) (h : RowsFit textWidth d) :
    RowsFit textWidth (setReplyFullText textWidth full d) := by
  unfold setReplyFullText
  split
  · simp only
    split
    · exact h
    · exact h
  · exact beginReplyTypewriter_fits hadditive full h

/-- After a due tick the row being typed fits just if the unit fitted behind it or
fits alone; the history fits either way. -/
theorem revealed_fits_iff {nowMs : UInt32} (unit rest : Text)
    (h : RowsFit textWidth d) :
    RowsFit textWidth (revealed textWidth nowMs unit rest d) <->
      (d.curLine ≠ [] ∧ textWidth d.curLine + textWidth unit ≤ subW) ∨
        RowFits textWidth unit := by
  have hpushed := pushLine_history_fits hadditive d.curLine d.curColor h.2
  rw [revealed_eq]
  by_cases hempty : d.curLine = []
  · have hsame : RowFits textWidth (d.curLine ++ unit) <-> RowFits textWidth unit := by
      rw [hempty, List.nil_append]
    rw [if_neg fun hwide => hwide.2 hempty]
    constructor
    · intro hrows
      exact Or.inr (hsame.mp hrows.1)
    · intro hunit
      rcases hunit with hbehind | halone
      · exact absurd hempty hbehind.1
      · exact ⟨hsame.mpr halone, h.2⟩
  · by_cases hwide : textWidth d.curLine + textWidth unit > subW
    · rw [if_pos ⟨hwide, hempty⟩]
      constructor
      · intro hrows
        exact Or.inr hrows.1
      · intro hunit
        rcases hunit with hbehind | halone
        · exact absurd hbehind.2 (by omega)
        · exact ⟨halone, hpushed⟩
    · have hroom : textWidth d.curLine + textWidth unit ≤ subW := by omega
      rw [if_neg fun hboth => hwide hboth.1]
      constructor
      · intro _
        exact Or.inl ⟨hempty, hroom⟩
      · intro _
        have hrow : RowFits textWidth (d.curLine ++ unit) := by
          left
          rw [hadditive]
          exact hroom
        exact ⟨hrow, h.2⟩

/-- A call keeps the rows fitting just if it reveals no unit that is too wide. -/
theorem subtitleStep_fits_iff (call : SubtitleCall) (d d' : Display)
    (h : RowsFit textWidth d) (hstep : subtitleStep textWidth call d d') :
    RowsFit textWidth d' <-> RevealsFittingUnit textWidth call d := by
  have hkeeps : RowsFit textWidth d' ->
      (RowsFit textWidth d' <-> True) := fun hfits => iff_true_intro hfits
  cases call with
  | setReplyFullText full =>
      cases hstep
      exact hkeeps (setReplyFullText_fits hadditive full h)
  | call c =>
      cases c with
      | appendReplyDelta delta =>
          cases hstep
          exact hkeeps (appendReplyDelta_fits hadditive delta h)
      | flushTyping =>
          cases hstep
          exact hkeeps (flushTyping_fits hadditive h)
      | addUserLine text =>
          cases hstep
          exact hkeeps (addUserLine_fits hadditive text h)
      | beginReplyTypewriter text =>
          cases hstep
          exact hkeeps (beginReplyTypewriter_fits hadditive text h)
      | tick nowMs =>
          have htick : tick textWidth nowMs d = .ok d' := hstep
          by_cases hdue : Due nowMs d
          · rcases tick_of_due textWidth hdue with ⟨rest, _, hrevealed⟩
            rw [hrevealed] at htick
            cases htick
            rw [revealed_fits_iff hadditive _ _ h]
            constructor
            · intro hunit _
              exact hunit
            · intro hguard
              exact hguard hdue
          · rw [tick_of_not_due textWidth hdue] at htick
            cases htick
            constructor
            · intro _ hdue'
              exact absurd hdue' hdue
            · intro _
              exact h

end Widths

/-- As long as no tick reveals a unit that is too wide, every row on the screen fits;
and the next call keeps that just if it reveals no such unit. -/
theorem rows_fit_until_wide_unit {textWidth : Text -> Int}
    (hadditive : forall s t, textWidth (s ++ t) = textWidth s + textWidth t)
    {calls : List SubtitleCall} {d : Display}
    (hrun : Run (Guarded (RevealsFittingUnit textWidth) (subtitleStep textWidth))
      new calls d) :
    RowsFit textWidth d ∧
      forall call d', subtitleStep textWidth call d d' ->
        (RowsFit textWidth d' <-> RevealsFittingUnit textWidth call d) := by
  apply hrun.guarded_exact (fun call d d' h hstep =>
    subtitleStep_fits_iff hadditive call d d' h hstep)
  constructor
  · exact rowFits_nil hadditive
  · intro line hline
    cases hline

section Examples

def letterWidth (t : Text) : Int :=
  7 * t.length

theorem letterWidth_append (s t : Text) :
    letterWidth (s ++ t) = letterWidth s + letterWidth t := by
  unfold letterWidth
  rw [List.length_append, Int.natCast_add, Int.mul_add]

def givenWord (n : Nat) : Display :=
  appendReplyDelta letterWidth (List.replicate n 'a') new

theorem givenWord_step (n : Nat) :
    subtitleStep letterWidth (.call (.appendReplyDelta (List.replicate n 'a'))) new
      (givenWord n) :=
  rfl

theorem shortWord_step :
    subtitleStep letterWidth (.call (.tick 1000)) (givenWord 2)
      (revealed letterWidth 1000 ['a', 'a'] [] (givenWord 2)) :=
  rfl

theorem longWord_step :
    subtitleStep letterWidth (.call (.tick 1000)) (givenWord 34)
      (revealed letterWidth 1000 (List.replicate 34 'a') [] (givenWord 34)) :=
  rfl

theorem rows_fit_until_wide_unit_instance :
    RowsFit letterWidth (revealed letterWidth 1000 ['a', 'a'] [] (givenWord 2)) := by
  have hgiven : RevealsFittingUnit letterWidth
      (.call (.appendReplyDelta (List.replicate 2 'a'))) new :=
    trivial
  have hword : RevealsFittingUnit letterWidth (.call (.tick 1000)) (givenWord 2) := by
    intro _
    right
    left
    decide
  exact (rows_fit_until_wide_unit letterWidth_append
    (.cons ⟨hgiven, givenWord_step 2⟩ (.cons ⟨hword, shortWord_step⟩ (.nil _)))).1

/-- A word of 34 letters is typed as one row of 238 pixels. -/
theorem wide_word_overflows :
    exists calls d, Run (subtitleStep letterWidth) new calls d ∧
      d.curLine = List.replicate 34 'a' ∧ letterWidth d.curLine = 238 ∧
      ¬ RowsFit letterWidth d := by
  refine ⟨_, _, .cons (givenWord_step 34) (.cons longWord_step (.nil _)), rfl, rfl, ?_⟩
  intro hrows
  cases hrows.1 with
  | inl hnarrow =>
      revert hnarrow
      decide
  | inr hsingle =>
      revert hsingle
      decide

end Examples

end Display
end TWA
