import TWA.Display.Units

/-!
# The typewriter loses, repeats and reorders nothing

Submitted text moves from `typingRest` through `curLine` to the history by
reveal units, by wrapping, and by the flushes that a change of mode implies.
Spaces and newlines aside, the rows pushed so far followed by the two buffers
always spell what has been submitted, in submission order.
-/

namespace TWA

open Foundation
open Foundation.Exec

namespace Display

def isVisible (c : Char) : Bool :=
  c != ' ' && c != '\n'

def visible (t : Text) : Text :=
  t.filter isVisible

@[simp] theorem visible_nil : visible [] = [] := rfl

@[simp] theorem visible_append (s t : Text) :
    visible (s ++ t) = visible s ++ visible t :=
  List.filter_append s t

def spelled (rows : List SubtitleLine) : Text :=
  rows.flatMap SubtitleLine.text

@[simp] theorem spelled_nil : spelled [] = [] := rfl

@[simp] theorem spelled_append (xs ys : List SubtitleLine) :
    spelled (xs ++ ys) = spelled xs ++ spelled ys :=
  List.flatMap_append

/-- Everything the display has been given and not dropped: log, row, rest. -/
def contents (d : Display) : Text :=
  spelled d.pushed ++ d.curLine ++ d.typingRest

/-!
## Rows
-/

section Rows

variable (textWidth : Text -> Int)

theorem wrapLoop_flatten (text : Text) (out : List Text) (cur : Text) :
    (wrapLoop textWidth text out cur).flatten =
      out.flatten ++ cur ++ text.filter (fun c => c != '\n') := by
  induction text generalizing out cur with
  | nil => simp [wrapLoop]
  | cons ch rest ih =>
      unfold wrapLoop
      by_cases hnewline : ch = '\n'
      · rw [if_pos hnewline, ih, hnewline]
        simp
      · rw [if_neg hnewline, List.filter_cons_of_pos (by simpa using hnewline)]
        split
        · rw [ih]
          simp
        · rw [ih]
          simp

theorem visible_filter_newline (t : Text) :
    visible (t.filter (fun c => c != '\n')) = visible t := by
  unfold visible
  rw [List.filter_filter]
  congr 1
  funext c
  simp only [isVisible]
  cases c != ' ' <;> cases c != '\n' <;> rfl

theorem visible_wrapToLines (text : Text) :
    visible (wrapToLines textWidth text).flatten = visible text := by
  unfold wrapToLines
  rw [wrapLoop_flatten]
  simpa using visible_filter_newline text

theorem visible_spelled_rows (segs : List Text) (color : UInt16) :
    visible (spelled (segs.map fun seg =>
      { text := if seg = [] then [' '] else seg, color := color })) =
      visible segs.flatten := by
  induction segs with
  | nil => rfl
  | cons seg segs ih =>
      rw [List.map_cons, List.flatten_cons, visible_append, ← ih]
      change visible ((if seg = [] then [' '] else seg) ++ spelled _) = _
      rw [visible_append]
      by_cases hseg : seg = []
      · subst hseg
        rfl
      · rw [if_neg hseg]

theorem visible_displayRows (text : Text) (color : UInt16) :
    visible (spelled (displayRows textWidth text color)) = visible text := by
  unfold displayRows
  rw [visible_spelled_rows, visible_wrapToLines]

theorem trimHistory_append (log rows : List SubtitleLine) :
    trimHistory (trimHistory log ++ rows) = trimHistory (log ++ rows) := by
  unfold trimHistory
  generalize maxHistoryLines = limit
  rw [← List.drop_append_of_le_length (Nat.sub_le _ _), List.drop_drop,
    List.length_drop, List.length_append]
  congr 1
  omega

end Rows

/-!
## What each call submits and moves
-/

inductive Call where
  | appendReplyDelta (delta : Text)
  | tick (nowMs : UInt32)
  | flushTyping
  | addUserLine (text : Text)
  | beginReplyTypewriter (text : Text)

namespace Call

def run (textWidth : Text -> Int) : Call -> Display -> Exec Display
  | appendReplyDelta delta, d => .ok (Display.appendReplyDelta textWidth delta d)
  | tick nowMs, d => Display.tick textWidth nowMs d
  | flushTyping, d => .ok (Display.flushTyping textWidth d)
  | addUserLine text, d => .ok (Display.addUserLine textWidth text d)
  | beginReplyTypewriter text, d =>
      .ok (Display.beginReplyTypewriter textWidth text d)

def submitted : Call -> Text
  | appendReplyDelta delta => delta
  | tick _ => []
  | flushTyping => []
  | addUserLine text => userLabel ++ text
  | beginReplyTypewriter text => text

end Call

def runCalls (textWidth : Text -> Int) : List Call -> Display -> Exec Display
  | [], d => .ok d
  | call :: calls, d => do
      let d <- call.run textWidth d
      runCalls textWidth calls d

structure Spells (s : Text) (d : Display) : Prop where
  text : visible d.contents = visible s
  history : d.history = trimHistory d.pushed

section Calls

variable (textWidth : Text -> Int) {s : Text} {d : Display}

/-!
Spaces and newlines aside, a call appends what it submits to the contents.
-/

theorem visible_contents_pushLine (text : Text) (color : UInt16)
    (hcur : d.curLine = []) :
    visible (pushLine textWidth text color d).contents =
      visible (spelled d.pushed ++ text ++ d.typingRest) := by
  simp [contents, pushLine, hcur, visible_displayRows]

theorem flushTyping_buffers :
    (flushTyping textWidth d).typingRest = [] ∧
      (flushTyping textWidth d).curLine = [] := by
  unfold flushTyping
  by_cases hempty : d.typingRest = [] ∧ d.curLine = []
  · simp only [if_pos hempty]
    exact hempty
  · simp only [if_neg hempty]
    exact ⟨rfl, rfl⟩

theorem visible_contents_flushTyping (d : Display) :
    visible (flushTyping textWidth d).contents = visible d.contents := by
  unfold flushTyping
  by_cases hempty : d.typingRest = [] ∧ d.curLine = []
  · simp only [if_pos hempty]
    rfl
  · simp only [if_neg hempty]
    rw [visible_contents_pushLine textWidth _ _ rfl]
    simp [contents]

theorem visible_contents_addUserLine (text : Text) (d : Display) :
    visible (addUserLine textWidth text d).contents =
      visible d.contents ++ visible (userLabel ++ text) := by
  rcases flushTyping_buffers textWidth (d := d) with ⟨hrest, hcur⟩
  unfold addUserLine
  rw [visible_contents_pushLine textWidth _ _ hcur,
    ← visible_contents_flushTyping textWidth d]
  simp [contents, hrest, hcur]

theorem visible_contents_reopen {text queued : Text} {color : UInt16}
    {mode : Bool} (d : Display) :
    visible
        { flushTyping textWidth d with
          typingRest := text
          curLine := []
          curColor := color
          streamMode := mode
          streamQueued := queued }.contents =
      visible d.contents ++ visible text := by
  rcases flushTyping_buffers textWidth (d := d) with ⟨hrest, hcur⟩
  rw [← visible_contents_flushTyping textWidth d]
  simp [contents, hrest, hcur]

theorem visible_contents_beginReplyTypewriter (text : Text) (d : Display) :
    visible (beginReplyTypewriter textWidth text d).contents =
      visible d.contents ++ visible text :=
  visible_contents_reopen textWidth d

theorem visible_contents_beginReplyStream (d : Display) :
    visible (beginReplyStream textWidth d).contents = visible d.contents := by
  have hopen : visible (beginReplyStream textWidth d).contents =
      visible d.contents ++ visible [] :=
    visible_contents_reopen textWidth d
  rw [hopen, visible_nil, List.append_nil]

theorem visible_contents_appendReplyDelta (delta : Text) (d : Display) :
    visible (appendReplyDelta textWidth delta d).contents =
      visible d.contents ++ visible delta := by
  unfold appendReplyDelta
  by_cases hempty : delta = []
  · rw [if_pos hempty, hempty, visible_nil, List.append_nil]
  · rw [if_neg hempty]
    have hopen : visible
        (if !d.streamMode then beginReplyStream textWidth d else d).contents =
          visible d.contents := by
      split
      · exact visible_contents_beginReplyStream textWidth d
      · rfl
    rw [← hopen]
    simp [contents]

/-!
The history stays the end of the log.
-/

theorem trimHistory_pushLine (text : Text) (color : UInt16)
    (h : d.history = trimHistory d.pushed) :
    (pushLine textWidth text color d).history =
      trimHistory (pushLine textWidth text color d).pushed := by
  unfold pushLine
  simp only
  rw [h, trimHistory_append]

theorem trimHistory_flushTyping (h : d.history = trimHistory d.pushed) :
    (flushTyping textWidth d).history =
      trimHistory (flushTyping textWidth d).pushed := by
  unfold flushTyping
  by_cases hempty : d.typingRest = [] ∧ d.curLine = []
  · simp only [if_pos hempty]
    exact h
  · simp only [if_neg hempty]
    exact trimHistory_pushLine textWidth _ _ h

theorem trimHistory_appendReplyDelta (delta : Text)
    (h : d.history = trimHistory d.pushed) :
    (appendReplyDelta textWidth delta d).history =
      trimHistory (appendReplyDelta textWidth delta d).pushed := by
  unfold appendReplyDelta
  split
  · exact h
  · split
    · exact trimHistory_flushTyping textWidth h
    · exact h

/-!
Both together: each call keeps `Spells`, with what it submits.
-/

theorem Spells.new : Spells [] new :=
  ⟨rfl, rfl⟩

theorem Spells.flushTyping (h : Spells s d) :
    Spells s (flushTyping textWidth d) := by
  constructor
  · rw [visible_contents_flushTyping, h.text]
  · exact trimHistory_flushTyping textWidth h.history

theorem Spells.addUserLine (text : Text) (h : Spells s d) :
    Spells (s ++ (userLabel ++ text)) (addUserLine textWidth text d) := by
  constructor
  · rw [visible_contents_addUserLine, visible_append s, h.text]
  · exact trimHistory_pushLine textWidth _ _ (trimHistory_flushTyping textWidth h.history)

theorem Spells.beginReplyTypewriter (text : Text) (h : Spells s d) :
    Spells (s ++ text) (beginReplyTypewriter textWidth text d) := by
  constructor
  · rw [visible_contents_beginReplyTypewriter, visible_append, h.text]
  · exact trimHistory_flushTyping textWidth h.history

theorem Spells.appendReplyDelta (delta : Text) (h : Spells s d) :
    Spells (s ++ delta) (appendReplyDelta textWidth delta d) := by
  constructor
  · rw [visible_contents_appendReplyDelta, visible_append, h.text]
  · exact trimHistory_appendReplyDelta textWidth delta h.history

/-!
## The tick
-/

def Due (nowMs : UInt32) (d : Display) : Prop :=
  d.typingRest ≠ [] ∧ ¬ nowMs - d.lastTypeMs < Config.typeIntervalMs

def revealed (textWidth : Text -> Int) (nowMs : UInt32) (unit rest : Text)
    (d : Display) : Display :=
  let d := { d with lastTypeMs := nowMs, typingRest := rest }
  if Text.trim unit = ['\n'] then
    pushLine textWidth d.curLine d.curColor { d with curLine := [] }
  else
    let d :=
      if textWidth d.curLine + textWidth unit > subW ∧ d.curLine ≠ [] then
        pushLine textWidth d.curLine d.curColor { d with curLine := [] }
      else
        d
    { d with curLine := d.curLine ++ unit }

theorem tick_of_not_due {nowMs : UInt32} (h : ¬ Due nowMs d) :
    tick textWidth nowMs d = .ok d := by
  unfold tick
  by_cases hrest : d.typingRest = []
  · rw [if_pos hrest]
    rfl
  · rw [if_neg hrest, if_pos]
    · rfl
    · by_contra hwait
      exact h ⟨hrest, hwait⟩

theorem tick_of_due {nowMs : UInt32} (h : Due nowMs d) :
    exists rest, d.typingRest = revealUnit d.typingRest ++ rest ∧
      tick textWidth nowMs d =
        .ok (revealed textWidth nowMs (revealUnit d.typingRest) rest d) := by
  rcases revealUnit_prefix d.typingRest with ⟨rest, hrest⟩
  refine ⟨rest, hrest.symm, ?_⟩
  have hmin : min (Utf8.encode (revealUnit d.typingRest)).length
      (Utf8.encode d.typingRest).length =
        (Utf8.encode (revealUnit d.typingRest)).length := by
    apply Nat.min_eq_left
    conv => rhs; rw [← hrest]
    simp
  have hcut : Utf8.splitAt d.typingRest
      (Utf8.encode (revealUnit d.typingRest)).length =
        .ok (revealUnit d.typingRest, rest) := by
    conv => lhs; arg 1; rw [← hrest]
    exact Utf8.splitAt_encode _ _
  unfold tick revealed
  rw [if_neg h.1, if_neg h.2]
  simp only [unitLength_eq, ok_bind, hmin, hcut, pure_eq_ok]
  split <;> rfl

theorem revealed_typingRest {nowMs : UInt32} {unit rest : Text} :
    (revealed textWidth nowMs unit rest d).typingRest = rest := by
  unfold revealed
  simp only
  split
  · rfl
  · split <;> rfl

/-- A trimmed text does not end in white space, so the newline branch of the tick
is never taken. -/
theorem trim_ne_newline (unit : Text) : Text.trim unit ≠ ['\n'] := by
  intro h
  rcases Text.getLast?_trim (t := unit) (by rw [h]; simp) with ⟨c, hlast, hc⟩
  rw [h] at hlast
  cases hlast
  revert hc
  decide

theorem revealed_eq (nowMs : UInt32) (unit rest : Text) (d : Display) :
    revealed textWidth nowMs unit rest d =
      if textWidth d.curLine + textWidth unit > subW ∧ d.curLine ≠ [] then
        { pushLine textWidth d.curLine d.curColor d with
          lastTypeMs := nowMs, typingRest := rest, curLine := unit }
      else
        { d with
          lastTypeMs := nowMs, typingRest := rest, curLine := d.curLine ++ unit } := by
  unfold revealed
  simp only
  rw [if_neg (trim_ne_newline unit)]
  split <;> rfl

theorem visible_contents_revealed {nowMs : UInt32} {unit rest : Text}
    (hrest : d.typingRest = unit ++ rest) :
    visible (revealed textWidth nowMs unit rest d).contents =
      visible d.contents := by
  rw [revealed_eq]
  split
  · simp [contents, pushLine, visible_displayRows, hrest]
  · simp [contents, hrest]

theorem trimHistory_revealed {nowMs : UInt32} {unit rest : Text}
    (h : d.history = trimHistory d.pushed) :
    (revealed textWidth nowMs unit rest d).history =
      trimHistory (revealed textWidth nowMs unit rest d).pushed := by
  have hpush := trimHistory_pushLine textWidth d.curLine d.curColor h
  rw [revealed_eq]
  split
  · simpa using hpush
  · exact h

theorem Spells.revealed {nowMs : UInt32} {unit rest : Text}
    (hrest : d.typingRest = unit ++ rest) (h : Spells s d) :
    Spells s (revealed textWidth nowMs unit rest d) := by
  constructor
  · rw [visible_contents_revealed textWidth hrest, h.text]
  · exact trimHistory_revealed textWidth h.history

theorem Spells.tick (nowMs : UInt32) (h : Spells s d) :
    exists d', tick textWidth nowMs d = .ok d' ∧ Spells s d' := by
  by_cases hdue : Due nowMs d
  · rcases tick_of_due textWidth hdue with ⟨rest, hrest, htick⟩
    exact ⟨_, htick, h.revealed textWidth hrest⟩
  · exact ⟨d, tick_of_not_due textWidth hdue, h⟩

theorem Spells.call (call : Call) (h : Spells s d) :
    exists d', call.run textWidth d = .ok d' ∧
      Spells (s ++ call.submitted) d' := by
  cases call with
  | appendReplyDelta delta => exact ⟨_, rfl, h.appendReplyDelta textWidth delta⟩
  | tick nowMs =>
      rcases Spells.tick textWidth nowMs h with ⟨d', htick, hd'⟩
      exact ⟨d', htick, by simpa [Call.submitted] using hd'⟩
  | flushTyping =>
      exact ⟨_, rfl, by simpa [Call.submitted] using h.flushTyping textWidth⟩
  | addUserLine text => exact ⟨_, rfl, h.addUserLine textWidth text⟩
  | beginReplyTypewriter text => exact ⟨_, rfl, h.beginReplyTypewriter textWidth text⟩

theorem Spells.runCalls (calls : List Call) (h : Spells s d) :
    exists d', runCalls textWidth calls d = .ok d' ∧
      Spells (s ++ calls.flatMap Call.submitted) d' := by
  induction calls generalizing s d with
  | nil => exact ⟨d, rfl, by simpa using h⟩
  | cons call calls ih =>
      rcases Spells.call textWidth call h with
        ⟨d1, hcall, hd1⟩
      rcases ih hd1 with ⟨d2, hrun, hd2⟩
      refine ⟨d2, ?_, ?_⟩
      · unfold Display.runCalls
        rw [hcall, ok_bind, hrun]
      · simpa using hd2

end Calls

def cellWidth (t : Text) : Int :=
  16 * t.length

theorem cellWidth_append (s t : Text) :
    cellWidth (s ++ t) = cellWidth s + cellWidth t := by
  unfold cellWidth
  rw [List.length_append, Int.natCast_add, Int.mul_add]

/-- The typewriter is faithful after every sequence of calls, and its next tick
cuts between characters and makes progress when it is due. -/
theorem typewriter_faithful (textWidth : Text -> Int) (calls : List Call) :
    exists d, runCalls textWidth calls new = .ok d ∧
      visible (spelled d.pushed ++ d.curLine ++ d.typingRest) =
        visible (calls.flatMap Call.submitted) ∧
      d.history =
        d.pushed.drop (d.pushed.length - min maxHistoryLines d.pushed.length) ∧
      forall nowMs, exists d' unit,
        tick textWidth nowMs d = .ok d' ∧
          d.typingRest = unit ++ d'.typingRest ∧
          (Due nowMs d -> d'.typingRest.length < d.typingRest.length) := by
  rcases Spells.runCalls textWidth calls Spells.new with
    ⟨d, hrun, hd⟩
  refine ⟨d, hrun, by simpa [contents] using hd.text, ?_, ?_⟩
  · rw [hd.history]
    unfold trimHistory
    congr 1
    omega
  · intro nowMs
    by_cases hdue : Due nowMs d
    · rcases tick_of_due textWidth hdue with
        ⟨rest, hrest, htick⟩
      refine ⟨_, revealUnit d.typingRest, htick, ?_, ?_⟩
      · rw [revealed_typingRest]
        exact hrest
      · intro _
        rw [revealed_typingRest]
        have hpos := List.length_pos_iff.mpr (revealUnit_ne_nil hdue.1)
        have hlen := congrArg List.length hrest
        rw [List.length_append] at hlen
        omega
    · exact ⟨d, [], tick_of_not_due textWidth hdue, rfl, fun h => absurd h hdue⟩

end Display
end TWA
