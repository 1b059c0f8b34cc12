import TWA.Display.Typewriter
import TWA.Display.FullText
import TWA.Foundation.Histories

/-!
# A completed reply and its deltas

While a reply streams, the display remembers what it has queued, so that the
completed text can be reconciled with it.  A flush forgets the queue but leaves
the round open.  This module follows the queue through the calls of a round and
says exactly when the completed text ends up in the subtitles once.
-/

namespace TWA

open Foundation
open Foundation.Exec

namespace Display

inductive RoundCall where
  | appendReplyDelta (delta : Text)
  | tick (nowMs : UInt32)
  | flushTyping
  deriving DecidableEq, Repr

namespace RoundCall

def toCall : RoundCall -> Call
  | appendReplyDelta delta => .appendReplyDelta delta
  | tick nowMs => .tick nowMs
  | flushTyping => .flushTyping

def isFlush : RoundCall -> Bool
  | flushTyping => true
  | _ => false

def delta : RoundCall -> Text
  | appendReplyDelta delta => delta
  | _ => []

theorem submitted_toCall (c : RoundCall) : c.toCall.submitted = c.delta := by
  cases c <;> rfl

end RoundCall

def runRound (textWidth : Text -> Int) (calls : List RoundCall) (d : Display) :
    Exec Display :=
  runCalls textWidth (calls.map RoundCall.toCall) d

def replyText (calls : List RoundCall) : Text :=
  calls.flatMap RoundCall.delta

def unflushed (calls : List RoundCall) : Text :=
  replyText (sectionOf RoundCall.isFlush calls)

/-- The stream that was open before the calls has not been flushed by them. -/
def StillOpen (d0 : Display) (calls : List RoundCall) : Prop :=
  d0.streamMode = true ∧ calls.any RoundCall.isFlush = false

instance (d0 : Display) (calls : List RoundCall) :
    Decidable (StillOpen d0 calls) :=
  inferInstanceAs (Decidable (_ ∧ _))

def remembered (d0 : Display) (calls : List RoundCall) : Text :=
  (if StillOpen d0 calls then d0.streamQueued else []) ++ unflushed calls

def Streaming (d0 : Display) (calls : List RoundCall) : Prop :=
  StillOpen d0 calls ∨ unflushed calls ≠ []

instance (d0 : Display) (calls : List RoundCall) :
    Decidable (Streaming d0 calls) :=
  inferInstanceAs (Decidable (_ ∨ _))

/-- The completed text repeats nothing that can be seen: a completed text that extends
what is remembered misses no visible delta in front of it, and any other one, which is
typed again in full, follows deltas that show nothing. -/
def RepeatsNothing (d0 : Display) (calls : List RoundCall) (full : Text) : Prop :=
  if Streaming d0 calls ∧ remembered d0 calls <+: full then
    visible (remembered d0 calls) = visible (replyText calls)
  else
    visible (replyText calls) = []

theorem repeatsNothing_of_no_flush {d0 : Display} {calls : List RoundCall}
    (hmode : d0.streamMode = false) (hflush : calls.any RoundCall.isFlush = false)
    (tail : Text) : RepeatsNothing d0 calls (replyText calls ++ tail) := by
  have htext : unflushed calls = replyText calls := by
    unfold unflushed
    rw [sectionOf_of_none hflush]
  have hremembered : remembered d0 calls = replyText calls := by
    simp [remembered, StillOpen, hmode, htext]
  unfold RepeatsNothing
  rw [hremembered]
  by_cases hnone : replyText calls = []
  · simp [hnone]
  · have hstreaming : Streaming d0 calls := by
      right
      rw [htext]
      exact hnone
    rw [if_pos ⟨hstreaming, List.prefix_append _ _⟩]

/-!
## The queue through a round
-/

section Queue

variable (textWidth : Text -> Int) {d0 d : Display} {calls : List RoundCall}

structure Queues (d0 : Display) (calls : List RoundCall) (d : Display) : Prop where
  mode : d.streamMode = true <-> Streaming d0 calls
  queued : d.streamMode = true -> d.streamQueued = remembered d0 calls

theorem queues_nil : Queues d0 [] d0 := by
  have hsection : unflushed [] = [] := rfl
  constructor
  · simp [Streaming, StillOpen, hsection]
  · intro hmode
    simp [remembered, StillOpen, hmode, hsection]

theorem flushTyping_stream (d : Display) :
    (flushTyping textWidth d).streamMode = false := by
  unfold flushTyping
  simp only
  split <;> rfl

theorem appendReplyDelta_stream {delta : Text} (hdelta : delta ≠ []) (d : Display) :
    (appendReplyDelta textWidth delta d).streamMode = true ∧
      (appendReplyDelta textWidth delta d).streamQueued =
        (if d.streamMode then d.streamQueued else []) ++ delta := by
  unfold appendReplyDelta
  rw [if_neg hdelta]
  cases hmode : d.streamMode with
  | true => simp [hmode]
  | false => simp [beginReplyStream]

theorem tick_stream {nowMs : UInt32} {d d' : Display}
    (h : tick textWidth nowMs d = .ok d') :
    d'.streamMode = d.streamMode ∧ d'.streamQueued = d.streamQueued := by
  by_cases hdue : Due nowMs d
  · rcases tick_of_due textWidth hdue with ⟨rest, _, htick⟩
    rw [htick] at h
    cases h
    rw [revealed_eq]
    split
    · exact ⟨rfl, rfl⟩
    · exact ⟨rfl, rfl⟩
  · rw [tick_of_not_due textWidth hdue] at h
    cases h
    exact ⟨rfl, rfl⟩

theorem unflushed_snoc {c : RoundCall} (hc : c.isFlush = false) :
    unflushed (calls ++ [c]) = unflushed calls ++ c.delta := by
  unfold unflushed
  rw [sectionOf_snoc_stays calls hc]
  simp [replyText]

theorem stillOpen_snoc {c : RoundCall} (hc : c.isFlush = false) :
    StillOpen d0 (calls ++ [c]) <-> StillOpen d0 calls := by
  simp [StillOpen, hc]

theorem Queues.flush (d : Display) :
    Queues d0 (calls ++ [RoundCall.flushTyping]) (flushTyping textWidth d) := by
  have hnothing : unflushed (calls ++ [RoundCall.flushTyping]) = [] := by
    unfold unflushed
    rw [sectionOf_snoc_opens calls rfl]
    rfl
  have hclosed : ¬ StillOpen d0 (calls ++ [RoundCall.flushTyping]) := by
    simp [StillOpen, RoundCall.isFlush]
  constructor
  · simp [flushTyping_stream, Streaming, hnothing, hclosed]
  · simp [flushTyping_stream]

theorem Queues.silent {c : RoundCall} {d' : Display} (h : Queues d0 calls d)
    (hc : c.isFlush = false) (hdelta : c.delta = [])
    (hsame : d'.streamMode = d.streamMode ∧ d'.streamQueued = d.streamQueued) :
    Queues d0 (calls ++ [c]) d' := by
  have htext : unflushed (calls ++ [c]) = unflushed calls := by
    rw [unflushed_snoc hc, hdelta, List.append_nil]
  constructor
  · rw [hsame.1, h.mode]
    simp only [Streaming, stillOpen_snoc hc, htext]
  · intro hmode
    rw [hsame.1] at hmode
    rw [hsame.2, h.queued hmode]
    simp only [remembered, stillOpen_snoc hc, htext]

theorem Queues.delta {delta : Text} (h : Queues d0 calls d) :
    Queues d0 (calls ++ [RoundCall.appendReplyDelta delta])
      (appendReplyDelta textWidth delta d) := by
  by_cases hdelta : delta = []
  · apply h.silent (c := RoundCall.appendReplyDelta delta) rfl hdelta
    unfold appendReplyDelta
    rw [if_pos hdelta]
    exact ⟨rfl, rfl⟩
  · rcases appendReplyDelta_stream textWidth hdelta d with ⟨hmode, hqueued⟩
    have htext : unflushed (calls ++ [RoundCall.appendReplyDelta delta]) =
        unflushed calls ++ delta :=
      unflushed_snoc rfl
    have hopen : StillOpen d0 (calls ++ [RoundCall.appendReplyDelta delta]) <->
        StillOpen d0 calls :=
      stillOpen_snoc rfl
    constructor
    · simp [hmode, Streaming, htext, hdelta]
    · intro _
      rw [hqueued]
      simp only [remembered, hopen, htext]
      cases hstream : d.streamMode with
      | true => simp [h.queued hstream, remembered]
      | false =>
          -- a display that does not stream remembers nothing
          have hclosed : ¬ Streaming d0 calls := by
            rw [← h.mode, hstream]
            exact Bool.false_ne_true
          have hstill : ¬ StillOpen d0 calls := fun hstill => hclosed (Or.inl hstill)
          have hnothing : unflushed calls = [] := by
            by_contra hsome
            exact hclosed (Or.inr hsome)
          simp [hstill, hnothing]

end Queue

/-!
## Runs of a round
-/

section Runs

variable (textWidth : Text -> Int) (d0 : Display)

theorem runCalls_append (xs ys : List Call) (d : Display) :
    runCalls textWidth (xs ++ ys) d = (do
      let d <- runCalls textWidth xs d
      runCalls textWidth ys d) := by
  induction xs generalizing d with
  | nil => rfl
  | cons x xs ih =>
      rw [List.cons_append, runCalls, runCalls]
      cases hcall : x.run textWidth d with
      | error e => rfl
      | ok d1 => exact ih d1

theorem visible_contents_call (c : Call) (d : Display) :
    exists d', c.run textWidth d = .ok d' ∧
      visible d'.contents = visible d.contents ++ visible c.submitted := by
  cases c with
  | appendReplyDelta delta =>
      exact ⟨_, rfl, visible_contents_appendReplyDelta textWidth delta d⟩
  | tick nowMs =>
      by_cases hdue : Due nowMs d
      · rcases tick_of_due textWidth hdue with ⟨rest, hrest, htick⟩
        refine ⟨_, htick, ?_⟩
        rw [visible_contents_revealed textWidth hrest]
        exact (List.append_nil _).symm
      · exact ⟨d, tick_of_not_due textWidth hdue, (List.append_nil _).symm⟩
  | flushTyping =>
      refine ⟨_, rfl, ?_⟩
      rw [visible_contents_flushTyping]
      exact (List.append_nil _).symm
  | addUserLine text => exact ⟨_, rfl, visible_contents_addUserLine textWidth text d⟩
  | beginReplyTypewriter text =>
      exact ⟨_, rfl, visible_contents_beginReplyTypewriter textWidth text d⟩

theorem runRound_spec (calls : List RoundCall) :
    exists d, runRound textWidth calls d0 = .ok d ∧
      visible d.contents = visible d0.contents ++ visible (replyText calls) ∧
      Queues d0 calls d := by
  induction calls using List.reverseRecOn with
  | nil => exact ⟨d0, rfl, (List.append_nil _).symm, queues_nil⟩
  | append_singleton calls c ih =>
      rcases ih with ⟨d, hrun, hcontents, hqueues⟩
      rcases visible_contents_call textWidth c.toCall d with ⟨d', hcall, hd'⟩
      refine ⟨d', ?_, ?_, ?_⟩
      · unfold runRound at hrun ⊢
        rw [List.map_append, runCalls_append, hrun, ok_bind]
        simp only [List.map_cons, List.map_nil, runCalls, hcall, ok_bind]
      · rw [hd', hcontents, RoundCall.submitted_toCall]
        simp [replyText]
      · cases c with
        | appendReplyDelta delta =>
            cases hcall
            exact hqueues.delta textWidth
        | tick nowMs => exact hqueues.silent rfl rfl (tick_stream textWidth hcall)
        | flushTyping =>
            cases hcall
            exact Queues.flush textWidth d

/-- Reconciling submits the part of the text that the queue lacks, or all of it. -/
theorem visible_contents_setReplyFullText (full : Text) (d : Display) :
    visible (setReplyFullText textWidth full d).contents =
      visible d.contents ++
        visible
          (if d.streamMode = true ∧ d.streamQueued <+: full then
            full.drop d.streamQueued.length
          else
            full) := by
  by_cases hextends : d.streamMode = true ∧ d.streamQueued <+: full
  · rw [if_pos hextends, setReplyFullText_extends textWidth full d hextends]
    simp [contents]
  · rw [if_neg hextends]
    unfold setReplyFullText
    rw [if_neg hextends]
    exact visible_contents_beginReplyTypewriter textWidth full d

/-- After any calls of a round, the text that completes their deltas is shown once just
if it repeats nothing. -/
theorem completed_once_iff (calls : List RoundCall) (tail : Text) :
    exists d, runRound textWidth calls d0 = .ok d ∧
      (visible (setReplyFullText textWidth (replyText calls ++ tail) d).contents =
          visible d0.contents ++ visible (replyText calls ++ tail) <->
        RepeatsNothing d0 calls (replyText calls ++ tail)) := by
  rcases runRound_spec textWidth d0 calls with
    ⟨d, hrun, hcontents, hqueues⟩
  refine ⟨d, hrun, ?_⟩
  generalize replyText calls ++ tail = full
  rw [visible_contents_setReplyFullText, hcontents, List.append_assoc,
    List.append_cancel_left_eq]
  unfold RepeatsNothing
  by_cases hextends : Streaming d0 calls ∧ remembered d0 calls <+: full
  · have hmode := hqueues.mode.mpr hextends.1
    have hqueued := hqueues.queued hmode
    have hsplit : full = remembered d0 calls ++
        full.drop (remembered d0 calls).length := by
      rcases hextends.2 with ⟨rest, hrest⟩
      rw [← hrest, List.drop_left]
    rw [if_pos hextends, if_pos ⟨hmode, hqueued ▸ hextends.2⟩, hqueued]
    have hfull : visible full = visible (remembered d0 calls) ++
        visible (full.drop (remembered d0 calls).length) := by
      conv => lhs; rw [hsplit]
      exact visible_append _ _
    rw [hfull, List.append_cancel_right_eq]
    exact eq_comm
  · have hretyped : ¬ (d.streamMode = true ∧ d.streamQueued <+: full) := by
      intro hstream
      apply hextends
      rw [hqueues.queued hstream.1] at hstream
      exact ⟨hqueues.mode.mp hstream.1, hstream.2⟩
    rw [if_neg hextends, if_neg hretyped, List.append_left_eq_self]

end Runs

/-- The button ends listening between the only delta of a round and its completed text:
the flush has put the delta into the history, and the text is typed again. -/
theorem completed_twice_after_flush :
    let textWidth : Text -> Int := fun t => 16 * t.length
    let d0 := addUserLine textWidth ['嗨'] new
    let calls := [RoundCall.appendReplyDelta ['好'], RoundCall.flushTyping]
    exists d, runRound textWidth calls d0 = .ok d ∧
      visible (setReplyFullText textWidth (replyText calls) d).contents =
        visible d0.contents ++ ['好', '好'] ∧
      visible (setReplyFullText textWidth (replyText calls) d).contents ≠
        visible d0.contents ++ visible (replyText calls) := by
  refine ⟨_, rfl, ?_, ?_⟩
  · decide
  · decide

end Display
end TWA
