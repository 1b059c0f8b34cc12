import Mathlib.Data.List.DropRight

/-!
# Histories

A history is the list of the events so far, the oldest first.  Properties of a
history are stated in the manner of past-time temporal logic: something
happened, and nothing of a certain kind has happened since.  Each of them has
one equation for the history that grows by an event.
-/

namespace TWA
namespace Foundation

variable {event : Type}

/-- Some event met `happened`, which also sees the history before it, and every
event after it met `since`. -/
def HappenedSince (happened : List event -> event -> Prop)
    (since : event -> Prop) (history : List event) : Prop :=
  exists before e after,
    history = before ++ e :: after ∧ happened before e ∧
      forall later, later ∈ after -> since later

def Happened (happened : List event -> event -> Prop)
    (history : List event) : Prop :=
  HappenedSince happened (fun _ => True) history

section Growing

variable {happened : List event -> event -> Prop} {since : event -> Prop}

@[simp] theorem happenedSince_nil :
    ¬ HappenedSince happened since [] := by
  intro h
  rcases h with ⟨before, e, after, hsplit, _, _⟩
  simp at hsplit

theorem happenedSince_snoc (history : List event) (e : event) :
    HappenedSince happened since (history ++ [e]) <->
      happened history e ∨ (since e ∧ HappenedSince happened since history) := by
  constructor
  · intro h
    rcases h with ⟨before, e0, after, hsplit, hhappened, hsince⟩
    -- The event that happened is the last one, or it lies in the old history.
    cases List.eq_nil_or_concat after with
    | inl hnil =>
        subst hnil
        have hlast := List.append_inj' hsplit rfl
        have hsame : e = e0 := by simpa using hlast.2
        left
        rw [hlast.1, hsame]
        exact hhappened
    | inr hconcat =>
        rcases hconcat with ⟨rest, last, hafter⟩
        subst hafter
        have hassoc : history ++ [e] = (before ++ e0 :: rest) ++ [last] := by
          rw [hsplit]
          simp
        have hlast := List.append_inj' hassoc rfl
        have hsame : e = last := by simpa using hlast.2
        right
        constructor
        · rw [hsame]
          exact hsince last (by simp)
        · refine ⟨before, e0, rest, hlast.1, hhappened, ?_⟩
          intro later hlater
          exact hsince later (by simp [hlater])
  · intro h
    cases h with
    | inl hhappened => exact ⟨history, e, [], rfl, hhappened, by simp⟩
    | inr hold =>
        rcases hold with ⟨he, before, e0, after, hsplit, hhappened, hsince⟩
        refine ⟨before, e0, after ++ [e], by simp [hsplit], hhappened, ?_⟩
        intro later hlater
        cases List.mem_append.mp hlater with
        | inl hmem => exact hsince later hmem
        | inr hmem =>
            have hsame : later = e := by simpa using hmem
            rw [hsame]
            exact he

@[simp] theorem happened_nil : ¬ Happened happened [] :=
  happenedSince_nil

theorem happened_snoc (history : List event) (e : event) :
    Happened happened (history ++ [e]) <->
      happened history e ∨ Happened happened history := by
  unfold Happened
  rw [happenedSince_snoc]
  simp

end Growing

/-!
# The part since the last opening event
-/

/-- The events after the last one that opens a section. -/
def sectionOf (opens : event -> Bool) (history : List event) : List event :=
  history.rtakeWhile fun e => !opens e

variable {opens : event -> Bool}

@[simp] theorem sectionOf_nil : sectionOf opens [] = [] :=
  rfl

theorem sectionOf_snoc_opens (history : List event) {e : event}
    (he : opens e = true) : sectionOf opens (history ++ [e]) = [] :=
  List.rtakeWhile_concat_neg _ _ _ (by simp [he])

theorem sectionOf_snoc_stays (history : List event) {e : event}
    (he : opens e = false) :
    sectionOf opens (history ++ [e]) = sectionOf opens history ++ [e] :=
  List.rtakeWhile_concat_pos _ _ _ (by simp [he])

theorem sectionOf_of_none {history : List event}
    (h : history.any opens = false) : sectionOf opens history = history := by
  apply List.rtakeWhile_eq_self_iff.mpr
  intro e he
  rw [List.any_eq_false] at h
  simpa using h e he

end Foundation
end TWA
