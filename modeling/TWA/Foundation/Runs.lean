import Mathlib.Tactic.Common

/-!
# Runs of a labelled transition system

A step relation says which state a label may lead to.  This module collects the
induction principles used for invariants: a property preserved by every step is
preserved by every run, and holds in every reachable state once it holds
initially.
-/

namespace TWA
namespace Foundation

variable {label state : Type}

/-- `Run step s ls t`: the labels `ls`, taken in order, lead from `s` to `t`. -/
inductive Run (step : label -> state -> state -> Prop) :
    state -> List label -> state -> Prop where
  | nil (s : state) : Run step s [] s
  | cons {s t u : state} {l : label} {ls : List label} :
      step l s t -> Run step t ls u -> Run step s (l :: ls) u

def Reachable (init : state -> Prop) (step : label -> state -> state -> Prop)
    (s : state) : Prop :=
  exists s0 ls, init s0 ∧ Run step s0 ls s

def Guarded (guard : label -> state -> Prop)
    (step : label -> state -> state -> Prop) : label -> state -> state -> Prop :=
  fun l s t => guard l s ∧ step l s t

namespace Run

variable {step : label -> state -> state -> Prop} {s t u : state}
  {ls ms : List label} {l : label}

theorem single (h : step l s t) : Run step s [l] t :=
  Run.cons h (Run.nil t)

theorem append (hst : Run step s ls t) (htu : Run step t ms u) :
    Run step s (ls ++ ms) u := by
  induction hst with
  | nil _ => exact htu
  | cons hstep _ ih => exact Run.cons hstep (ih htu)

theorem snoc (hst : Run step s ls t) (htu : step l t u) :
    Run step s (ls ++ [l]) u :=
  append hst (single htu)

/-- The states of a run, computed one after the other. -/
theorem of_foldlM {f : state -> label -> Option state}
    (hstep : forall s l t, f s l = some t -> step l s t)
    (h : ls.foldlM f s = some t) : Run step s ls t := by
  induction ls generalizing s with
  | nil =>
      cases h
      exact Run.nil _
  | cons l ls ih =>
      rw [List.foldlM_cons] at h
      rcases Option.bind_eq_some_iff.mp h with ⟨u, hu, hrest⟩
      exact Run.cons (hstep s l u hu) (ih hrest)

theorem invariant {P : state -> Prop}
    (hpres : forall l s t, P s -> step l s t -> P t)
    (hrun : Run step s ls t) (hs : P s) : P t := by
  induction hrun with
  | nil _ => exact hs
  | cons hstep _ ih => exact ih (hpres _ _ _ hs hstep)

theorem mono {other : label -> state -> state -> Prop}
    (hsub : forall l s t, step l s t -> other l s t)
    (hrun : Run step s ls t) : Run other s ls t := by
  induction hrun with
  | nil _ => exact Run.nil _
  | cons hstep _ ih => exact Run.cons (hsub _ _ _ hstep) ih

theorem of_guarded {guard : label -> state -> Prop}
    (hrun : Run (Guarded guard step) s ls t) : Run step s ls t :=
  hrun.mono fun _ _ _ h => h.2

/-- A guard that every label meets anywhere is no restriction. -/
theorem to_guarded {guard : label -> state -> Prop}
    (hguard : forall l s, l ∈ ls -> guard l s) (hrun : Run step s ls t) :
    Run (Guarded guard step) s ls t := by
  induction hrun with
  | nil _ => exact Run.nil _
  | cons hstep _ ih =>
      apply Run.cons
      · exact ⟨hguard _ _ List.mem_cons_self, hstep⟩
      · exact ih fun l s hl => hguard l s (List.mem_cons_of_mem _ hl)

/-- A property that is kept by just the steps that meet the guard holds after a
guarded run, and the next step keeps it just if it meets the guard. -/
theorem guarded_exact {guard : label -> state -> Prop} {P : state -> Prop}
    (hstep : forall l s t, P s -> step l s t -> (P t <-> guard l s))
    (hrun : Run (Guarded guard step) s ls t) (hs : P s) :
    P t ∧ forall l u, step l t u -> (P u <-> guard l t) := by
  have ht : P t :=
    hrun.invariant (fun l s t hP hguarded => (hstep l s t hP hguarded.2).mpr hguarded.1)
      hs
  exact ⟨ht, fun l u hlast => hstep l t u ht hlast⟩

/-- A rank that every step lowers bounds the number of steps to the goal. -/
theorem ends (goal inv : state -> Prop) (rank : state -> Nat)
    (hstable : forall l s t, goal s -> step l s t -> goal t)
    (hdown : forall l s t, inv s -> step l s t ->
      goal t ∨ (inv t ∧ rank t < rank s))
    (hrun : Run step s ls t) (hs : inv s) (hlen : rank s < ls.length) :
    goal t := by
  induction hrun with
  | nil _ => simp at hlen
  | cons hstep hrest ih =>
      rcases hdown _ _ _ hs hstep with hgoal | ⟨hinv, hlower⟩
      · exact hrest.invariant hstable hgoal
      · apply ih hinv
        rw [List.length_cons] at hlen
        omega

/-- A rank that every step lowers bounds the length of every run. -/
theorem bounded (inv : state -> Prop) (rank : state -> Nat)
    (hdown : forall l s t, inv s -> step l s t -> inv t ∧ rank t < rank s)
    (hrun : Run step s ls t) (hs : inv s) : inv t ∧ ls.length + rank t ≤ rank s := by
  induction hrun with
  | nil _ => exact ⟨hs, Nat.le_of_eq (Nat.zero_add _)⟩
  | cons hstep _ ih =>
      rcases hdown _ _ _ hs hstep with ⟨hinv, hlower⟩
      rcases ih hinv with ⟨hlast, hlen⟩
      rw [List.length_cons]
      exact ⟨hlast, by omega⟩

/-- A property that some step always keeps holds along runs of any length. -/
theorem forever {P : state -> Prop}
    (hnext : forall s, P s -> exists l t, step l s t ∧ P t) (hs : P s) (n : Nat) :
    exists ls t, ls.length = n ∧ Run step s ls t ∧ P t := by
  induction n generalizing s with
  | zero => exact ⟨[], s, rfl, Run.nil s, hs⟩
  | succ n ih =>
      rcases hnext s hs with ⟨l, t, hstep, ht⟩
      rcases ih ht with ⟨ls, u, hlen, hrun, hu⟩
      exact ⟨l :: ls, u, by rw [List.length_cons, hlen], Run.cons hstep hrun, hu⟩

end Run

namespace Reachable

variable {init : state -> Prop} {step : label -> state -> state -> Prop}
  {s t : state} {l : label}

theorem refl (h : init s) : Reachable init step s :=
  ⟨s, [], h, Run.nil s⟩

theorem step_trans (hs : Reachable init step s) (hstep : step l s t) :
    Reachable init step t := by
  rcases hs with ⟨s0, ls, hinit, hrun⟩
  exact ⟨s0, ls ++ [l], hinit, hrun.snoc hstep⟩

theorem invariant {P : state -> Prop} (hinit : forall s, init s -> P s)
    (hpres : forall l s t, P s -> step l s t -> P t)
    (hs : Reachable init step s) : P s := by
  rcases hs with ⟨s0, ls, h0, hrun⟩
  exact hrun.invariant hpres (hinit s0 h0)

end Reachable

end Foundation
end TWA
