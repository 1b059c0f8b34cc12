import TWA.Display.Typewriter
import TWA.Foundation.Runs

/-!
# Where typed lines break

A reply is broken into rows twice: by the typewriter, unit by unit, and by
`wrapToLines`, character by character.  For text in which every character is a
unit of its own, the two are compared at every moment of the typing.
-/

namespace TWA

open Foundation
open Foundation.Exec

namespace Display

section Wrapping

variable (textWidth : Text -> Int)

theorem wrapLoop_append (s t : Text) (out : List Text) (cur : Text) :
    exists rows row, wrapLoop textWidth s out cur = rows ++ [row] ∧
      wrapLoop textWidth (s ++ t) out cur = wrapLoop textWidth t rows row := by
  induction s generalizing out cur with
  | nil => exact ⟨out, cur, rfl, rfl⟩
  | cons ch s ih =>
      rw [List.cons_append, wrapLoop, wrapLoop]
      split
      · exact ih _ _
      · split
        · exact ih _ _
        · exact ih _ _

theorem wrapToLines_snoc {text : Text} {rows : List Text} {row : Text} (ch : Char)
    (h : wrapToLines textWidth text = rows ++ [row]) :
    wrapToLines textWidth (text ++ [ch]) = wrapLoop textWidth [ch] rows row := by
  unfold wrapToLines at h ⊢
  rcases wrapLoop_append textWidth text [ch] [] [] with ⟨rows', row', hshort, hlong⟩
  rw [hshort] at h
  rcases List.append_inj' h rfl with ⟨hrows, hrow⟩
  have hsame : row' = row := by simpa using hrow
  rw [hlong, hrows, hsame]

theorem wrapLoop_singleton {ch : Char} (hch : ch ≠ '\n') (rows : List Text)
    (row : Text) :
    wrapLoop textWidth [ch] rows row =
      if textWidth row + textWidth [ch] > subW ∧ row ≠ [] then rows ++ [row] ++ [[ch]]
      else rows ++ [row ++ [ch]] := by
  rw [wrapLoop, if_neg hch]
  rfl

/-- How a row of the history looks: an empty one shows a space. -/
def shownRow (seg : Text) : Text :=
  if seg = [] then [' '] else seg

theorem displayRows_text (text : Text) (color : UInt16) :
    (displayRows textWidth text color).map SubtitleLine.text =
      (wrapToLines textWidth text).map shownRow := by
  unfold displayRows
  rw [List.map_map]
  rfl

end Wrapping

/-!
## Replies that are revealed character by character
-/

def OwnUnit (c : Char) : Prop :=
  Utf8.onChar isAsciiGraphic c = false ∧ Utf8.onChar isSpace c = false

theorem revealUnit_own {c : Char} (h : OwnUnit c) (rest : Text) :
    revealUnit (c :: rest) = [c] := by
  unfold revealUnit
  rw [List.takeWhile_cons, List.dropWhile_cons, h.2]
  simp [h.1]

inductive ReplyCall where
  | appendReplyDelta (delta : Text)
  | tick (nowMs : UInt32)
  deriving DecidableEq, Repr

namespace ReplyCall

def run (textWidth : Text -> Int) : ReplyCall -> Display -> Exec Display
  | appendReplyDelta delta, d => .ok (Display.appendReplyDelta textWidth delta d)
  | tick nowMs, d => Display.tick textWidth nowMs d

def delta : ReplyCall -> Text
  | appendReplyDelta delta => delta
  | tick _ => []

end ReplyCall

structure Reply where
  display : Display
  given : Text

def replyStep (textWidth : Text -> Int) (call : ReplyCall) (r r' : Reply) : Prop :=
  (forall c, c ∈ call.delta -> OwnUnit c) ∧
    call.run textWidth r.display = .ok r'.display ∧
    r'.given = r.given ++ call.delta

structure Rested (d : Display) : Prop where
  curLine : d.curLine = []
  typingRest : d.typingRest = []
  history : d.history = trimHistory d.pushed

/-- The rows that the reply has pushed, followed by the row being typed, are the rows
of the revealed prefix, and the row being typed has no newline in it. -/
def BreaksLikeWrap (textWidth : Text -> Int) (d0 : Display) (r : Reply) : Prop :=
  exists revealed rows,
    r.given = revealed ++ r.display.typingRest ∧
      wrapToLines textWidth revealed = rows ++ [r.display.curLine] ∧
      r.display.pushed.map SubtitleLine.text =
        d0.pushed.map SubtitleLine.text ++ rows.map shownRow ∧
      r.display.history = trimHistory r.display.pushed ∧
      '\n' ∉ r.display.curLine

def RevealsNoNewline (call : ReplyCall) (r : Reply) : Prop :=
  match call with
  | .appendReplyDelta _ => True
  | .tick nowMs => Due nowMs r.display -> r.display.typingRest.head? ≠ some '\n'

/-- What the typing keeps besides: the row being typed is a row of its own wrapping,
and a display that does not stream has nothing to type. -/
structure TypesOwnUnits (textWidth : Text -> Int) (d : Display) : Prop where
  row : wrapToLines textWidth d.curLine = [d.curLine]
  rest : forall c, c ∈ d.typingRest -> OwnUnit c
  streams : d.streamMode = true ∨ (d.typingRest = [] ∧ d.curLine = [])

section Typing

variable (textWidth : Text -> Int) {d0 d : Display}

theorem appendReplyDelta_buffers (delta : Text)
    (h : d.streamMode = true ∨ (d.typingRest = [] ∧ d.curLine = [])) :
    let d' := appendReplyDelta textWidth delta d
    d'.typingRest = d.typingRest ++ delta ∧ d'.curLine = d.curLine ∧
      d'.pushed = d.pushed ∧ d'.history = d.history ∧
      (d'.streamMode = true ∨ (d'.typingRest = [] ∧ d'.curLine = [])) := by
  intro d'
  by_cases hdelta : delta = []
  · have hsame : d' = d := if_pos hdelta
    rw [hsame, hdelta, List.append_nil]
    exact ⟨rfl, rfl, rfl, rfl, h⟩
  · have hmode : d'.streamMode = true := by
      simp only [d', appendReplyDelta, if_neg hdelta]
      cases hstream : d.streamMode with
      | true => simp [hstream]
      | false => rfl
    cases hstream : d.streamMode with
    | true =>
        have hd' : d' = { d with
            typingRest := d.typingRest ++ delta
            streamQueued := d.streamQueued ++ delta } := by
          simp [d', appendReplyDelta, hdelta, hstream]
        rw [hd']
        exact ⟨rfl, rfl, rfl, rfl, Or.inl hstream⟩
    | false =>
        rw [hstream] at h
        have hempty : d.typingRest = [] ∧ d.curLine = [] := by simpa using h
        refine ⟨?_, ?_, ?_, ?_, Or.inl hmode⟩
        all_goals
          simp [d', appendReplyDelta, beginReplyStream, flushTyping, hdelta, hstream,
            hempty.1, hempty.2]

theorem BreaksLikeWrap.delta {given delta : Text}
    (h : BreaksLikeWrap textWidth d0 ⟨d, given⟩) (htypes : TypesOwnUnits textWidth d) :
    BreaksLikeWrap textWidth d0
      ⟨appendReplyDelta textWidth delta d, given ++ delta⟩ := by
  rcases h with ⟨revealed, rows, hgiven, hwrap, hpushed, hhistory, hnewline⟩
  rcases appendReplyDelta_buffers textWidth delta htypes.streams with
    ⟨hrest, hcur, hlog, hold, _⟩
  refine ⟨revealed, rows, ?_, ?_, ?_, ?_, ?_⟩
  · simp only at hgiven ⊢
    rw [hrest, hgiven, List.append_assoc]
  · simp only at hwrap ⊢
    rw [hcur]
    exact hwrap
  · simp only at hpushed ⊢
    rw [hlog]
    exact hpushed
  · simp only at hhistory ⊢
    rw [hold, hlog]
    exact hhistory
  · simp only at hnewline ⊢
    rw [hcur]
    exact hnewline

theorem TypesOwnUnits.delta {delta : Text} (hdelta : forall c, c ∈ delta -> OwnUnit c)
    (h : TypesOwnUnits textWidth d) :
    TypesOwnUnits textWidth (appendReplyDelta textWidth delta d) := by
  rcases appendReplyDelta_buffers textWidth delta h.streams with
    ⟨hrest, hcur, _, _, hstreams⟩
  constructor
  · rw [hcur]
    exact h.row
  · intro c hc
    rw [hrest] at hc
    cases List.mem_append.mp hc with
    | inl hold => exact h.rest c hold
    | inr hnew => exact hdelta c hnew
  · exact hstreams

theorem tick_own {nowMs : UInt32} {c : Char} {rest : Text}
    (hdue : Due nowMs d) (hrest : d.typingRest = c :: rest) (hc : OwnUnit c) :
    tick textWidth nowMs d = .ok (revealed textWidth nowMs [c] rest d) := by
  rcases tick_of_due textWidth hdue with ⟨rest', hsplit, htick⟩
  rw [hrest, revealUnit_own hc] at hsplit
  have hsame : rest' = rest := by simpa using hsplit.symm
  rw [htick, hrest, revealUnit_own hc, hsame]

theorem BreaksLikeWrap.revealed {given : Text} {nowMs : UInt32} {c : Char}
    {rest : Text} (h : BreaksLikeWrap textWidth d0 ⟨d, given⟩)
    (htypes : TypesOwnUnits textWidth d) (hrest : d.typingRest = c :: rest)
    (hc : c ≠ '\n') :
    BreaksLikeWrap textWidth d0 ⟨revealed textWidth nowMs [c] rest d, given⟩ := by
  rcases h with ⟨shown, rows, hgiven, hwrap, hpushed, hhistory, hnewline⟩
  simp only at hgiven hwrap hpushed hhistory hnewline
  have hlonger := wrapToLines_snoc textWidth c hwrap
  rw [wrapLoop_singleton textWidth hc] at hlonger
  rw [revealed_eq]
  by_cases hroom : textWidth d.curLine + textWidth [c] > subW ∧ d.curLine ≠ []
  · rw [if_pos hroom] at hlonger ⊢
    have hpush := trimHistory_pushLine textWidth d.curLine d.curColor hhistory
    refine ⟨shown ++ [c], rows ++ [d.curLine], ?_, hlonger, ?_, hpush, ?_⟩
    · simp [hgiven, hrest]
    · simp [pushLine, displayRows_text, htypes.row, hpushed]
    · simpa using fun heq => hc heq.symm
  · rw [if_neg hroom] at hlonger ⊢
    refine ⟨shown ++ [c], rows, ?_, hlonger, hpushed, hhistory, ?_⟩
    · simp [hgiven, hrest]
    · simpa [hnewline] using fun heq => hc heq.symm

theorem TypesOwnUnits.revealed {nowMs : UInt32} {c : Char} {rest : Text}
    (h : TypesOwnUnits textWidth d) (hrest : d.typingRest = c :: rest)
    (hc : c ≠ '\n') :
    TypesOwnUnits textWidth (revealed textWidth nowMs [c] rest d) := by
  have hown : forall c', c' ∈ rest -> OwnUnit c' := by
    intro c' hc'
    exact h.rest c' (by simp [hrest, hc'])
  have hstream : d.streamMode = true := by
    cases h.streams with
    | inl hstream => exact hstream
    | inr hempty => simp [hrest] at hempty
  have halone : wrapToLines textWidth d.curLine = [] ++ [d.curLine] := h.row
  have hrow := wrapToLines_snoc textWidth c halone
  rw [wrapLoop_singleton textWidth hc] at hrow
  rw [revealed_eq]
  by_cases hroom : textWidth d.curLine + textWidth [c] > subW ∧ d.curLine ≠ []
  · rw [if_pos hroom]
    refine ⟨?_, hown, Or.inl hstream⟩
    simp [wrapToLines, wrapLoop, hc]
  · rw [if_neg hroom] at hrow ⊢
    exact ⟨hrow, hown, Or.inl hstream⟩

theorem newline_mem_revealed (nowMs : UInt32) (rest : Text) (d : Display) :
    '\n' ∈ (revealed textWidth nowMs ['\n'] rest d).curLine := by
  rw [revealed_eq]
  split <;> simp

end Typing

/-!
## Whole replies
-/

section Runs

variable (textWidth : Text -> Int) {d0 : Display}

theorem replyStep_keeps {call : ReplyCall} {r r' : Reply}
    (h : BreaksLikeWrap textWidth d0 r ∧ TypesOwnUnits textWidth r.display)
    (hguard : RevealsNoNewline call r) (hstep : replyStep textWidth call r r') :
    BreaksLikeWrap textWidth d0 r' ∧ TypesOwnUnits textWidth r'.display := by
  rcases r with ⟨d, given⟩
  rcases r' with ⟨d', given'⟩
  rcases h with ⟨hbreaks, htypes⟩
  rcases hstep with ⟨hdelta, hcall, hgiven⟩
  simp only at hcall hgiven htypes
  subst hgiven
  cases call with
  | appendReplyDelta delta =>
      cases hcall
      exact ⟨hbreaks.delta textWidth htypes, htypes.delta textWidth hdelta⟩
  | tick nowMs =>
      have hsame : given ++ (ReplyCall.tick nowMs).delta = given := List.append_nil given
      rw [hsame]
      simp only [ReplyCall.run] at hcall
      by_cases hdue : Due nowMs d
      · rcases List.exists_cons_of_ne_nil hdue.1 with ⟨c, rest, hrest⟩
        have hc : c ≠ '\n' := by
          have hhead := hguard hdue
          simp only [hrest] at hhead
          intro heq
          exact hhead (by rw [heq]; rfl)
        rw [tick_own textWidth hdue hrest (htypes.rest c (by simp [hrest]))] at hcall
        cases hcall
        exact ⟨hbreaks.revealed textWidth htypes hrest hc,
          htypes.revealed textWidth hrest hc⟩
      · rw [tick_of_not_due textWidth hdue] at hcall
        cases hcall
        exact ⟨hbreaks, htypes⟩

theorem replyStep_breaks {call : ReplyCall} {r r' : Reply}
    (htypes : TypesOwnUnits textWidth r.display)
    (hguard : ¬ RevealsNoNewline call r) (hstep : replyStep textWidth call r r') :
    ¬ BreaksLikeWrap textWidth d0 r' := by
  rcases hstep with ⟨_, hcall, _⟩
  cases call with
  | appendReplyDelta delta => exact absurd trivial hguard
  | tick nowMs =>
      simp only [RevealsNoNewline, not_forall, not_not] at hguard
      rcases hguard with ⟨hdue, hhead⟩
      rcases List.exists_cons_of_ne_nil hdue.1 with ⟨c, rest, hrest⟩
      have hc : c = '\n' := by simpa [hrest] using hhead
      subst hc
      simp only [ReplyCall.run] at hcall
      rw [tick_own textWidth hdue hrest (htypes.rest _ (by simp [hrest]))] at hcall
      have hnewline := newline_mem_revealed textWidth nowMs rest r.display
      rw [Except.ok.inj hcall] at hnewline
      intro hbreaks
      rcases hbreaks with ⟨_, _, _, _, _, _, hnone⟩
      exact hnone hnewline

theorem breaksLikeWrap_start (h : Rested d0) :
    BreaksLikeWrap textWidth d0 ⟨d0, []⟩ ∧ TypesOwnUnits textWidth d0 := by
  constructor
  · refine ⟨[], [], ?_, ?_, ?_, h.history, ?_⟩
    · simp [h.typingRest]
    · simp [h.curLine, wrapToLines, wrapLoop]
    · simp
    · simp [h.curLine]
  · constructor
    · simp [h.curLine, wrapToLines, wrapLoop]
    · simp [h.typingRest]
    · exact Or.inr ⟨h.typingRest, h.curLine⟩

/-- As long as no newline is revealed, typing breaks lines where `wrapToLines` does; and
the next call keeps that just if it does not reveal one. -/
theorem typing_breaks_like_wrap (h : Rested d0) {calls : List ReplyCall} {r : Reply}
    (hrun : Run (Guarded RevealsNoNewline (replyStep textWidth)) ⟨d0, []⟩ calls r) :
    BreaksLikeWrap textWidth d0 r ∧
      forall call r', replyStep textWidth call r r' ->
        (BreaksLikeWrap textWidth d0 r' <-> RevealsNoNewline call r) := by
  have hr : BreaksLikeWrap textWidth d0 r ∧ TypesOwnUnits textWidth r.display :=
    hrun.invariant
      (P := fun r => BreaksLikeWrap textWidth d0 r ∧ TypesOwnUnits textWidth r.display)
      (fun _ _ _ hs hstep => replyStep_keeps textWidth hs hstep.1 hstep.2)
      (breaksLikeWrap_start textWidth h)
  refine ⟨hr.1, ?_⟩
  intro call r' hstep
  constructor
  · intro hbreaks
    by_contra hguard
    exact replyStep_breaks textWidth hr.2 hguard hstep hbreaks
  · intro hguard
    exact (replyStep_keeps textWidth hr hguard hstep).1

end Runs

section Examples

theorem rested_new : Rested new :=
  ⟨rfl, rfl, rfl⟩

theorem replyStep_delta {delta : Text} (hdelta : forall c, c ∈ delta -> OwnUnit c)
    (d : Display) (given : Text) :
    replyStep cellWidth (.appendReplyDelta delta) ⟨d, given⟩
      ⟨appendReplyDelta cellWidth delta d, given ++ delta⟩ :=
  ⟨hdelta, rfl, rfl⟩

theorem replyStep_tick {nowMs : UInt32} {c : Char} {rest : Text} {d : Display}
    (hdue : Due nowMs d) (hrest : d.typingRest = c :: rest) (hc : OwnUnit c)
    (given : Text) :
    replyStep cellWidth (.tick nowMs) ⟨d, given⟩
      ⟨revealed cellWidth nowMs [c] rest d, given⟩ := by
  refine ⟨by simp [ReplyCall.delta], ?_, (List.append_nil given).symm⟩
  exact tick_own cellWidth hdue hrest hc

theorem ownUnit_example {c : Char} (hc : c ∈ ['好', '\n']) : OwnUnit c := by
  cases hc with
  | head => exact ⟨by decide, by decide⟩
  | tail _ hc =>
      cases hc with
      | head => exact ⟨by decide, by decide⟩
      | tail _ hc => cases hc

def givenReply : Display :=
  appendReplyDelta cellWidth ['好', '\n'] new

theorem givenReply_step :
    replyStep cellWidth (.appendReplyDelta ['好', '\n']) ⟨new, []⟩
      ⟨givenReply, ['好', '\n']⟩ :=
  replyStep_delta (fun _ hc => ownUnit_example hc) new []

theorem firstCharacter_step :
    replyStep cellWidth (.tick 1000) ⟨givenReply, ['好', '\n']⟩
      ⟨revealed cellWidth 1000 ['好'] ['\n'] givenReply, ['好', '\n']⟩ :=
  replyStep_tick ⟨by decide, by decide⟩ rfl (ownUnit_example (by simp)) _

theorem newline_step :
    replyStep cellWidth (.tick 2000)
      ⟨revealed cellWidth 1000 ['好'] ['\n'] givenReply, ['好', '\n']⟩
      ⟨revealed cellWidth 2000 ['\n'] []
        (revealed cellWidth 1000 ['好'] ['\n'] givenReply), ['好', '\n']⟩ :=
  replyStep_tick ⟨by decide, by decide⟩ rfl (ownUnit_example (by simp)) _

theorem typing_breaks_like_wrap_instance :
    BreaksLikeWrap cellWidth new
      ⟨revealed cellWidth 1000 ['好'] ['\n'] givenReply, ['好', '\n']⟩ := by
  have hgiven : RevealsNoNewline (.appendReplyDelta ['好', '\n']) ⟨new, []⟩ :=
    trivial
  have hfirst : RevealsNoNewline (.tick 1000) ⟨givenReply, ['好', '\n']⟩ := by
    intro _
    decide
  exact (typing_breaks_like_wrap cellWidth rested_new
    (.cons ⟨hgiven, givenReply_step⟩
      (.cons ⟨hfirst, firstCharacter_step⟩ (.nil _)))).1

/-- The newline of a reply is put into the row being typed instead of ending it. -/
theorem newline_does_not_break :
    exists calls r, Run (replyStep cellWidth) ⟨new, []⟩ calls r ∧
      r.given = ['好', '\n'] ∧ r.display.typingRest = [] ∧
      r.display.curLine = ['好', '\n'] ∧ r.display.pushed = [] ∧
      wrapToLines cellWidth ['好', '\n'] = [['好'], []] ∧
      ¬ BreaksLikeWrap cellWidth new r := by
  refine ⟨_, _,
    .cons givenReply_step (.cons firstCharacter_step (.cons newline_step (.nil _))),
    rfl, rfl, rfl, rfl, by decide, ?_⟩
  intro hbreaks
  rcases hbreaks with ⟨_, _, _, _, _, _, hnewline⟩
  exact hnewline (newline_mem_revealed cellWidth 2000 [] _)

end Examples

end Display
end TWA
