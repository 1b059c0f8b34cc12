import TWA.Foundation.WrappingClock
import TWA.Main.System

/-!
# Stamps and the time

Both tasks read a clock of 32 bits, the main loop at the top of a pass and the voice
task at the top of a round, and go on to use that stamp while time passes.  Here the
time of a clock that does not wrap is kept beside the system, with the times at which
its stamps were taken.
-/

namespace TWA

open Foundation
open Foundation.Exec
open Foundation.WrappingClock
open VoiceClient

namespace Main

structure Moment where
  time : Nat
  pass : Nat
  deriving DecidableEq, Repr

/-- The system and, all of them ghost fields, the times in milliseconds since boot. -/
structure Timed where
  sys : System
  /-- The time of the last step. -/
  clock : Nat
  /-- The top of the last pass of the main loop. -/
  passTime : Nat
  /-- The top of the last round of the session loop. -/
  roundTime : Nat
  /-- The last change to idle. -/
  left : Option Moment
  /-- The last change to listening. -/
  entered : Option Moment
  /-- The time that the last stored speech event was stamped with. -/
  spoke : Option Nat
  deriving DecidableEq, Repr

def Timed.boot (audio : AudioOutput) : Timed :=
  { sys := System.boot audio
    clock := 0
    passTime := 0
    roundTime := 0
    left := none
    entered := none
    spoke := none }

def TimedInit (s : Timed) : Prop :=
  exists reserve, s = Timed.boot (.new reserve)

def ReadsClock (time : Nat) (l : Label) (s : System) : Prop :=
  match l with
  | .main inp => s.mainPc = .top -> inp.now = stamp time
  | .voice (.clock now) => now = stamp time
  | .voice _ => True

def speaks : Label -> Bool
  | .voice (.text payload) =>
      decide (parseServerMessage payload = .ok (.vadSpeaking true))
  | _ => false

def beginsPass (l : Label) (s : System) : Bool :=
  match l with
  | .main _ => decide (s.mainPc = .top)
  | .voice _ => false

def beginsRound : Label -> Bool
  | .voice (.clock _) => true
  | _ => false

def observe (time : Nat) (l : Label) (s : Timed) (sys : System) : Timed :=
  { sys := sys
    clock := time
    passTime := if beginsPass l s.sys then time else s.passTime
    roundTime := if beginsRound l then time else s.roundTime
    left :=
      if s.sys.app.state ≠ .idle ∧ sys.app.state = .idle then some ⟨time, s.passTime⟩
      else s.left
    entered :=
      if s.sys.app.state ≠ .listening ∧ sys.app.state = .listening then
        some ⟨time, s.passTime⟩
      else s.entered
    spoke := if speaks l then some s.roundTime else s.spoke }

section Steps

variable (textWidth : Text -> Int) (rnd : Rat -> Rat)

structure TimedStep (l : Nat × Label) (s t : Timed) : Prop where
  step : Step textWidth rnd l.2 s.sys t.sys
  order : s.clock ≤ l.1
  reads : ReadsClock l.1 l.2 s.sys
  observed : t = observe l.1 l.2 s t.sys

end Steps

theorem TimedStep.of_step {textWidth : Text -> Int} {rnd : Rat -> Rat} (time : Nat)
    {l : Label} {s : Timed} {sys : System} (hstep : Step textWidth rnd l s.sys sys)
    (horder : s.clock ≤ time) (hreads : ReadsClock time l s.sys) :
    TimedStep textWidth rnd (time, l) s (observe time l s sys) :=
  ⟨hstep, horder, hreads, rfl⟩

theorem TimedStep.main {textWidth : Text -> Int} {rnd : Rat -> Rat} {time : Nat}
    {inp : MainInput} {s t : Timed} (h : TimedStep textWidth rnd (time, .main inp) s t) :
    mainStep textWidth rnd inp s.sys.mainPc s.sys.app s.sys.shared =
      .ok (t.sys.mainPc, t.sys.app, t.sys.shared) := by
  have hstep := h.step
  generalize t.sys = sys at hstep
  cases hstep with
  | main _ hmain => exact hmain

/-!
## Where a step leads
-/

def VoicePc.round : VoicePc -> Option UInt32
  | .sendingInterrupt now | .uplink now | .sendingMic now _ | .waiting now => some now
  | _ => none

section Points

variable {textWidth : Text -> Int} {rnd : Rat -> Rat} {s s' : Shared}

theorem passTop_next {inp : MainInput} {pc' : MainPc} {m m' : AppLoop}
    (h : passTop textWidth rnd inp m s = .ok (pc', m', s')) :
    (exists edge wsUp pumped, pc' = .machine ⟨inp.now, wsUp, pumped⟩ edge) ∧
      m' = { m with prevTalk := m'.prevTalk } ∧ s'.lastVadMs = s.lastVadMs := by
  rcases bind_eq_ok.mp h with ⟨⟨started, pushed, audio⟩, _, h⟩
  rcases bind_eq_ok.mp h with ⟨display, _, h⟩
  cases h
  exact ⟨⟨_, _, _, rfl⟩, rfl, rfl⟩

structure Follows (pc pc' : MainPc) (state state' : AppState) : Prop where
  pass : pc'.pass = none ∨ pc'.pass = pc.pass
  machine : forall p edge, pc' ≠ .machine p edge
  placed : Placed pc state -> Placed pc' state'

theorem Follows.passEnd (p : Pass) (pc : MainPc) (state state' : AppState) :
    Follows pc (passEnd p) state state' := by
  unfold Main.passEnd
  split
  · exact ⟨Or.inl rfl, by simp, fun _ => trivial⟩
  · exact ⟨Or.inl rfl, by simp, fun _ => trivial⟩

theorem listeningArm_follows {mic : Option (List UInt8)} {p : Pass} {talkEdge : Bool}
    {pc' : MainPc} {m m' : AppLoop} (hstate : m.state = .listening)
    (h : listeningArm mic p talkEdge m s = .ok (pc', m', s')) :
    Follows (.machine p talkEdge) pc' m.state m'.state := by
  rcases bind_eq_ok.mp h with ⟨n, _, h⟩
  cases talkEdge with
  | true =>
      injection h with h
      injection h with hpc' hr
      subst hpc'
      refine ⟨Or.inr rfl, by simp, fun _ => ?_⟩
      -- a reply may have come in the same pass
      split at hr
      · cases hr
        change AppState.playing ≠ AppState.idle
        simp
      · cases hr
        change m.state ≠ AppState.idle
        simp [hstate]
  | false =>
      injection h with h
      injection h with hpc' _
      subst hpc'
      exact ⟨Or.inr rfl, by simp, fun _ => trivial⟩

theorem mainStep_next {inp : MainInput} {pc pc' : MainPc} {m m' : AppLoop} (hpc : pc ≠ .top)
    (h : mainStep textWidth rnd inp pc m s = .ok (pc', m', s')) :
    Follows pc pc' m.state m'.state := by
  cases pc with
  | top => exact absurd rfl hpc
  | machine p talkEdge =>
      unfold mainStep at h
      cases hstate : m.state with
      | idle =>
          simp only [hstate, idleArm] at h
          split at h
          · cases h
            exact ⟨Or.inr rfl, by simp, fun _ => trivial⟩
          · split at h
            · cases h
              exact ⟨Or.inr rfl, by simp, fun _ => hstate⟩
            · cases h
              exact ⟨Or.inr rfl, by simp, fun _ => trivial⟩
      | listening =>
          simp only [hstate] at h
          have hfollows := listeningArm_follows hstate h
          rwa [hstate] at hfollows
      | playing =>
          simp only [hstate, playingArm] at h
          split at h
          · cases h
            exact ⟨Or.inr rfl, by simp, fun _ => hstate⟩
          · rcases bind_eq_ok.mp h with ⟨⟨m1, s1⟩, _, h⟩
            cases h
            exact ⟨Or.inr rfl, by simp, fun _ => trivial⟩
  | idleDebounce p =>
      unfold mainStep at h
      simp only at h
      split at h <;> cases h <;> exact ⟨Or.inr rfl, by simp, fun _ => trivial⟩
  | listenDebounce p =>
      injection h with h
      injection h with hpc' _
      subst hpc'
      exact ⟨Or.inr rfl, by simp, fun _ => trivial⟩
  | playDebounce p =>
      unfold mainStep at h
      simp only at h
      split at h
      · cases h
        exact ⟨Or.inr rfl, by simp, id⟩
      · rcases bind_eq_ok.mp h with ⟨⟨m1, s1⟩, _, h⟩
        cases h
        exact ⟨Or.inr rfl, by simp, fun _ => trivial⟩
  | releasing p =>
      unfold mainStep at h
      simp only at h
      split at h
      · cases h
        exact ⟨Or.inr rfl, by simp, id⟩
      · rcases bind_eq_ok.mp h with ⟨⟨m1, s1⟩, _, h⟩
        cases h
        exact ⟨Or.inr rfl, by simp, fun _ => trivial⟩
  | playRelease p =>
      cases h
      exact ⟨Or.inr rfl, by simp, id⟩
  | volUp p =>
      unfold mainStep at h
      simp only at h
      split at h <;> cases h <;> exact ⟨Or.inr rfl, by simp, fun _ => trivial⟩
  | upDebounce p =>
      cases h
      exact ⟨Or.inr rfl, by simp, fun _ => trivial⟩
  | volDown p =>
      unfold mainStep at h
      simp only at h
      split at h
      · cases h
        exact ⟨Or.inr rfl, by simp, fun _ => trivial⟩
      · cases h
        exact Follows.passEnd p _ _ _
  | downDebounce p =>
      cases h
      exact Follows.passEnd p _ _ _
  | rest =>
      cases h
      exact ⟨Or.inl rfl, by simp, fun _ => trivial⟩

theorem voiceStep_round {inp : VoiceInput} {pc pc' : VoicePc}
    (h : voiceStep textWidth rnd pc inp s = .ok (some (pc', s'))) :
    (exists now, inp = .clock now ∧ pc'.round = some now) ∨
      ((forall now, inp ≠ .clock now) ∧ (pc'.round = none ∨ pc'.round = pc.round)) := by
  have hsent {next : VoicePc} {ok : Bool} (hafter : afterSend next ok s = (pc', s')) :
      pc'.round = none ∨ pc'.round = next.round := by
    unfold afterSend at hafter
    split at hafter
    · cases hafter
      exact Or.inr rfl
    · cases hafter
      exact Or.inl rfl
  unfold voiceStep at h
  split at h
  · cases h
    exact Or.inr ⟨by simp, Or.inl rfl⟩
  · cases h
    exact Or.inr ⟨by simp, Or.inl rfl⟩
  · cases h
    exact Or.inr ⟨by simp, Or.inl rfl⟩
  · cases h
    exact Or.inr ⟨by simp, Or.inl rfl⟩
  · injection h with h
    injection h with h
    unfold sessionTop at h
    split at h
    · cases h
      exact Or.inl ⟨_, rfl, rfl⟩
    · cases h
      exact Or.inl ⟨_, rfl, rfl⟩
  · injection h with h
    injection h with h
    have hround := hsent h
    exact Or.inr ⟨by simp, hround⟩
  · injection h with h
    injection h with h
    refine Or.inr ⟨by simp, ?_⟩
    unfold uplink at h
    split at h
    · split at h
      · cases h
        exact Or.inr rfl
      · cases h
        exact Or.inr rfl
    · cases h
      exact Or.inr rfl
  · injection h with h
    injection h with h
    have hround := hsent h
    exact Or.inr ⟨by simp, hround⟩
  · rcases bind_eq_ok.mp h with ⟨r, hr, h⟩
    cases h
    rcases bind_eq_ok.mp hr with ⟨ev, _, hr⟩
    rcases bind_eq_ok.mp hr with ⟨⟨latency, s1⟩, _, hr⟩
    cases latency with
    | none =>
        cases hr
        exact Or.inr ⟨by simp, Or.inl rfl⟩
    | some ms =>
        cases hr
        exact Or.inr ⟨by simp, Or.inl rfl⟩
  · cases h
    exact Or.inr ⟨by simp, Or.inl rfl⟩
  · cases h
    exact Or.inr ⟨by simp, Or.inl rfl⟩
  · injection h with h
    injection h with h
    exact Or.inr ⟨by simp, Or.inl ((hsent h).elim id id)⟩
  · cases h

theorem voiceStep_lastVadMs {inp : VoiceInput} {pc pc' : VoicePc}
    (h : voiceStep textWidth rnd pc inp s = .ok (some (pc', s'))) :
    (speaks (.voice inp) = false ∧ s'.lastVadMs = s.lastVadMs) ∨
      (speaks (.voice inp) = true ∧ pc.round = some s'.lastVadMs) := by
  cases voiceStep_cases h with
  | start _ => exact Or.inl ⟨rfl, rfl⟩
  | up => exact Or.inl ⟨rfl, rfl⟩
  | refused => exact Or.inl ⟨rfl, rfl⟩
  | interrupt _ =>
      rw [takeInterrupt_eq]
      exact Or.inl ⟨rfl, rfl⟩
  | idle _ _ hinp =>
      rcases hinp with rfl | rfl | rfl | ⟨now, rfl, _⟩ <;> exact Or.inl ⟨rfl, rfl⟩
  | take _ _ => exact Or.inl ⟨rfl, rfl⟩
  | event hparse hhandle _ =>
      rename_i now payload ev latency _
      have hstamp := congrArg Shared.lastVadMs (handleServerEvent_frame hhandle)
      unfold speaks
      by_cases hev : ev = .vadSpeaking true
      · rw [if_pos hev] at hstamp
        rw [hev] at hparse
        exact Or.inr ⟨decide_eq_true hparse, by rw [hstamp]; rfl⟩
      · rw [if_neg hev] at hstamp
        refine Or.inl ⟨decide_eq_false fun hcontra => hev ?_, hstamp⟩
        rw [hparse] at hcontra
        injection hcontra
  | lost _ hinp => rcases hinp with rfl | rfl <;> exact Or.inl ⟨rfl, rfl⟩

end Points

/-!
## What the stamps say
-/

def Past (s : Timed) (o : Option Moment) : Prop :=
  forall e, o = some e -> e.pass ≤ e.time ∧ e.time ≤ s.clock ∧ e.pass ≤ s.passTime

structure InOrder (s : Timed) : Prop where
  pass_le : s.passTime ≤ s.clock
  round_le : s.roundTime ≤ s.clock
  left_past : Past s s.left
  entered_past : Past s s.entered
  spoke_le : forall v, s.spoke = some v -> v ≤ s.clock

def cooldownEnd : Option Moment -> UInt32
  | none => 0
  | some e => stamp e.pass + Config.listenCooldownMs

structure LoopStamped (s : Timed) : Prop where
  pass : forall p, s.sys.mainPc.pass = some p -> p.now = stamp s.passTime
  placed : Placed s.sys.mainPc s.sys.app.state
  cooldown : s.sys.app.cooldownUntil = cooldownEnd s.left
  begun : s.sys.app.state ≠ .idle -> s.entered ≠ none
  started : forall e, s.entered = some e -> s.sys.app.listenStarted = stamp e.pass
  /-- At the state machine the last change to idle belongs to an earlier pass. -/
  earlier : forall p edge, s.sys.mainPc = .machine p edge ->
    forall e, s.left = some e -> e.time ≤ s.passTime

structure VoiceStamped (s : Timed) : Prop where
  round : forall now, s.sys.voicePc.round = some now -> now = stamp s.roundTime
  spoke : s.sys.shared.lastVadMs =
    match s.spoke with
    | none => 0
    | some v => stamp v

structure Stamped (s : Timed) : Prop extends InOrder s, LoopStamped s, VoiceStamped s

section Steps

variable {textWidth : Text -> Int} {rnd : Rat -> Rat} {s t : Timed} {time : Nat}
  {l : Label} {sys : System}

theorem InOrder.observe (h : InOrder s) (hle : s.clock ≤ time) (l : Label) (sys : System) :
    InOrder (observe time l s sys) := by
  have hpass := h.pass_le
  have hpassTime : (Main.observe time l s sys).passTime = time ∨
      (Main.observe time l s sys).passTime = s.passTime := ite_eq_or_eq _ _ _
  have hroundTime : (Main.observe time l s sys).roundTime = time ∨
      (Main.observe time l s sys).roundTime = s.roundTime := ite_eq_or_eq _ _ _
  have hclock : (Main.observe time l s sys).clock = time := rfl
  -- what lay in the past still does, and now does too
  have hpast {o o' : Option Moment} (ho : Past s o)
      (hcases : o' = some ⟨time, s.passTime⟩ ∨ o' = o) :
      Past (Main.observe time l s sys) o' := by
    intro e he
    rcases hcases with hnow | hold
    · rw [hnow, Option.some.injEq] at he
      subst he
      refine ⟨?_, ?_, ?_⟩ <;> dsimp only <;> omega
    · rcases ho e (hold.symm.trans he) with ⟨horder, hbefore, hearlier⟩
      refine ⟨horder, ?_, ?_⟩ <;> omega
  refine ⟨?_, ?_, hpast h.left_past (ite_eq_or_eq _ _ _),
    hpast h.entered_past (ite_eq_or_eq _ _ _), ?_⟩
  · omega
  · have hround := h.round_le
    omega
  · intro v hv
    have hround := h.round_le
    have hspoke : (Main.observe time l s sys).spoke = some s.roundTime ∨
        (Main.observe time l s sys).spoke = s.spoke := ite_eq_or_eq _ _ _
    rcases hspoke with hnow | hold
    · rw [hnow, Option.some.injEq] at hv
      omega
    · have hbefore := h.spoke_le v (hold.symm.trans hv)
      omega

variable (s time l sys) in
theorem observe_left (hstate : sys.app.state = .idle -> s.sys.app.state = .idle) :
    (observe time l s sys).left = s.left :=
  if_neg fun hleaves => hleaves.1 (hstate hleaves.2)

variable (s time l sys) in
theorem observe_entered (hstate : sys.app.state = .listening -> s.sys.app.state = .listening) :
    (observe time l s sys).entered = s.entered :=
  if_neg fun hbegins => hbegins.1 (hstate hbegins.2)

theorem LoopStamped.kept (h : LoopStamped s) (hpass : beginsPass l s.sys = false)
    (hpc : forall p, sys.mainPc.pass = some p -> s.sys.mainPc.pass = some p)
    (hplaced : Placed sys.mainPc sys.app.state)
    (hmachine : forall p edge, sys.mainPc = .machine p edge -> s.sys.mainPc = .machine p edge)
    (hstate : sys.app.state = s.sys.app.state)
    (hcool : sys.app.cooldownUntil = s.sys.app.cooldownUntil)
    (hlisten : sys.app.listenStarted = s.sys.app.listenStarted) :
    LoopStamped (observe time l s sys) := by
  have hleft := observe_left s time l sys hstate.symm.trans
  have hentered := observe_entered s time l sys hstate.symm.trans
  have htime : (observe time l s sys).passTime = s.passTime :=
    if_neg (by simp [hpass])
  refine ⟨?_, hplaced, ?_, ?_, ?_, ?_⟩
  · rw [htime]
    exact fun p hp => h.pass p (hpc p hp)
  · rw [hleft, ← h.cooldown]
    exact hcool
  · rw [hentered]
    exact fun hne => h.begun fun hidle => hne (hstate.trans hidle)
  · rw [hentered]
    exact fun e he => hlisten.trans (h.started e he)
  · rw [htime, hleft]
    exact fun p edge hp => h.earlier p edge (hmachine p edge hp)

theorem LoopStamped.main (h : LoopStamped s) {inp : MainInput} (hpc : s.sys.mainPc ≠ .top)
    (hmain : mainStep textWidth rnd inp s.sys.mainPc s.sys.app s.sys.shared =
      .ok (sys.mainPc, sys.app, sys.shared)) :
    LoopStamped (observe time (.main inp) s sys) := by
  rcases mainStep_next hpc hmain with ⟨hpass, hmachine, hplaced⟩
  have hbegins : beginsPass (.main inp) s.sys = false := by simp [beginsPass, hpc]
  have hsame : (observe time (.main inp) s sys).passTime = s.passTime :=
    if_neg (by simp [hbegins])
  have hkeeps (p : Pass) (hp : sys.mainPc.pass = some p) : s.sys.mainPc.pass = some p := by
    rcases hpass with hnone | hkept
    · rw [hnone] at hp
      cases hp
    · exact hkept.symm.trans hp
  have hstamp (p : Pass) (hp : sys.mainPc.pass = some p) :
      p.now = stamp (observe time (.main inp) s sys).passTime := by
    rw [hsame]
    exact h.pass p (hkeeps p hp)
  have hearlier (p : Pass) (edge : Bool) (hp : sys.mainPc = .machine p edge) :
      forall e, (observe time (.main inp) s sys).left = some e ->
        e.time ≤ (observe time (.main inp) s sys).passTime :=
    absurd hp (hmachine p edge)
  have hquiet {u : Shared} (hstill : Still s.sys.app sys.app u sys.shared) :
      LoopStamped (observe time (.main inp) s sys) := by
    exact h.kept hbegins hkeeps (hplaced h.placed)
      (fun p edge hp => absurd hp (hmachine p edge)) hstill.state hstill.cooldownUntil
      hstill.listenStarted
  cases mainStep_case hpc hmain with
  | still hstill => exact hquiet hstill
  | records mic hstill => exact hquiet hstill
  | listens p hp hfrom hstill =>
      have hstate : sys.app.state = .listening := hstill.state
      have hleft := observe_left s time (.main inp) sys (by simp [hstate])
      have hentered : (observe time (.main inp) s sys).entered = some ⟨time, s.passTime⟩ :=
        if_pos ⟨hfrom h.placed, hstate⟩
      refine ⟨hstamp, hplaced h.placed, ?_, ?_, ?_, hearlier⟩
      · rw [hleft, ← h.cooldown]
        exact hstill.cooldownUntil
      · rw [hentered]
        exact fun _ hnone => by cases hnone
      · intro e he
        rw [hentered, Option.some.injEq] at he
        subst he
        exact hstill.listenStarted.trans (h.pass p hp)
  | plays mic hfrom hstill =>
      have hstate : sys.app.state = .playing := hstill.state
      have hleft := observe_left s time (.main inp) sys (by simp [hstate])
      have hentered := observe_entered s time (.main inp) sys (fun _ => hfrom)
      refine ⟨hstamp, hplaced h.placed, ?_, ?_, ?_, hearlier⟩
      · rw [hleft, ← h.cooldown]
        exact hstill.cooldownUntil
      · rw [hentered]
        exact fun _ => h.begun (by simp [hfrom])
      · rw [hentered]
        exact fun e he => hstill.listenStarted.trans (h.started e he)
  | stops p mic hp hfrom hstill =>
      have hstate : sys.app.state = .idle := hstill.state
      have hleft : (observe time (.main inp) s sys).left = some ⟨time, s.passTime⟩ :=
        if_pos ⟨hfrom h.placed, hstate⟩
      have hentered := observe_entered s time (.main inp) sys (by simp [hstate])
      refine ⟨hstamp, hplaced h.placed, ?_, fun hne => absurd hstate hne, ?_, hearlier⟩
      · rw [hleft]
        change sys.app.cooldownUntil = stamp s.passTime + Config.listenCooldownMs
        rw [hstill.cooldownUntil, ← h.pass p hp]
        rfl
      · rw [hentered]
        exact fun e he => hstill.listenStarted.trans (h.started e he)

theorem LoopStamped.top (h : LoopStamped s) (horder : InOrder s) (hle : s.clock ≤ time)
    {inp : MainInput} (hpc : s.sys.mainPc = .top) (hnow : inp.now = stamp time)
    (hmain : passTop textWidth rnd inp s.sys.app s.sys.shared =
      .ok (sys.mainPc, sys.app, sys.shared)) :
    LoopStamped (observe time (.main inp) s sys) := by
  rcases passTop_next hmain with ⟨⟨edge, wsUp, pumped, hmachine⟩, hloop, _⟩
  have hstate : sys.app.state = s.sys.app.state := by rw [hloop]
  have htime : (observe time (.main inp) s sys).passTime = time :=
    if_pos (by simp [beginsPass, hpc])
  have hleft := observe_left s time (.main inp) sys hstate.symm.trans
  have hentered := observe_entered s time (.main inp) sys hstate.symm.trans
  refine ⟨?_, ?_, ?_, ?_, ?_, ?_⟩
  · intro p hp
    change sys.mainPc.pass = some p at hp
    rw [hmachine] at hp
    cases hp
    rw [htime]
    exact hnow
  · change Placed sys.mainPc sys.app.state
    rw [hmachine]
    trivial
  · rw [hleft, ← h.cooldown]
    change sys.app.cooldownUntil = _
    rw [hloop]
  · rw [hentered]
    exact fun hne => h.begun fun hidle => hne (hstate.trans hidle)
  · rw [hentered]
    intro e he
    change sys.app.listenStarted = _
    rw [hloop]
    exact h.started e he
  · rw [htime, hleft]
    exact fun _ _ _ e he => Nat.le_trans (horder.left_past e he).2.1 hle

theorem mainStep_lastVadMs {inp : MainInput} {pc pc' : MainPc} {m m' : AppLoop}
    {u u' : Shared} (h : mainStep textWidth rnd inp pc m u = .ok (pc', m', u')) :
    u'.lastVadMs = u.lastVadMs := by
  by_cases hpc : pc = .top
  · rw [hpc] at h
    exact (passTop_next h).2.2
  · have hread (mic : Option (List UInt8)) : (readMic mic u).lastVadMs = u.lastVadMs := by
      unfold readMic
      split
      · rfl
      · split <;> rfl
    cases mainStep_case hpc h with
    | still hstill => rw [hstill.shared]
    | listens p _ _ hstill =>
        rw [hstill.shared]
        rfl
    | records mic hstill =>
        rw [hstill.shared]
        exact hread mic
    | plays mic _ hstill =>
        rw [hstill.shared]
        exact hread mic
    | stops p mic _ _ hstill =>
        rw [hstill.shared]
        exact hread mic

theorem VoiceStamped.main (h : VoiceStamped s) {inp : MainInput}
    (hvoice : sys.voicePc = s.sys.voicePc)
    (hmain : mainStep textWidth rnd inp s.sys.mainPc s.sys.app s.sys.shared =
      .ok (sys.mainPc, sys.app, sys.shared)) :
    VoiceStamped (observe time (.main inp) s sys) := by
  refine ⟨?_, ?_⟩
  · intro now hnow
    change sys.voicePc.round = some now at hnow
    rw [hvoice] at hnow
    exact h.round now hnow
  · change sys.shared.lastVadMs = _
    rw [mainStep_lastVadMs hmain]
    exact h.spoke

theorem VoiceStamped.voice (h : VoiceStamped s) {inp : VoiceInput}
    (hreads : ReadsClock time (.voice inp) s.sys)
    (hvoice : voiceStep textWidth rnd s.sys.voicePc inp s.sys.shared =
      .ok (some (sys.voicePc, sys.shared))) :
    VoiceStamped (observe time (.voice inp) s sys) := by
  refine ⟨?_, ?_⟩
  · intro now hnow
    change sys.voicePc.round = some now at hnow
    rcases voiceStep_round hvoice with ⟨now', rfl, hround⟩ | ⟨hinp, hround⟩
    · rw [hround, Option.some.injEq] at hnow
      exact hnow.symm.trans hreads
    · have hsame : (observe time (.voice inp) s sys).roundTime = s.roundTime := by
        cases inp with
        | clock now' => exact absurd rfl (hinp now')
        | _ => rfl
      rw [hsame]
      rcases hround with hnone | hkept
      · rw [hnone] at hnow
        cases hnow
      · exact h.round now (hkept.symm.trans hnow)
  · change sys.shared.lastVadMs =
      match if speaks (.voice inp) then some s.roundTime else s.spoke with
      | none => 0
      | some v => stamp v
    rcases voiceStep_lastVadMs hvoice with ⟨hquiet, hkept⟩ | ⟨hspeaks, hround⟩
    · rw [hkept, hquiet]
      exact h.spoke
    · rw [hspeaks]
      exact h.round _ hround

theorem TimedStep.stamped {l : Nat × Label} (hs : Stamped s)
    (h : TimedStep textWidth rnd l s t) : Stamped t := by
  rcases l with ⟨time, l⟩
  have horder := hs.toInOrder.observe h.order l t.sys
  have hobserved := h.observed
  have hreads := h.reads
  have hstep := h.step
  generalize t.sys = sys at hstep horder hobserved
  rw [hobserved]
  refine ⟨horder, ?_, ?_⟩
  · cases hstep with
    | main _ hmain =>
        by_cases hpc : s.sys.mainPc = .top
        · have htop := hmain
          rw [hpc] at htop
          exact hs.toLoopStamped.top hs.toInOrder h.order hpc (hreads hpc) htop
        · exact hs.toLoopStamped.main hpc hmain
    | voice _ _ =>
        exact hs.toLoopStamped.kept rfl (fun _ hp => hp) hs.placed (fun _ _ hp => hp) rfl rfl rfl
  · cases hstep with
    | main _ hmain => exact hs.toVoiceStamped.main rfl hmain
    | voice _ hvoice => exact hs.toVoiceStamped.voice hreads hvoice

theorem TimedInit.stamped (h : TimedInit s) : Stamped s := by
  rcases h with ⟨reserve, rfl⟩
  refine ⟨⟨Nat.le_refl _, Nat.le_refl _, ?_, ?_, ?_⟩, ⟨?_, trivial, rfl, ?_, ?_, ?_⟩, ?_, rfl⟩
  · intro e he
    cases he
  · intro e he
    cases he
  · intro v hv
    cases hv
  · intro p hp
    cases hp
  · exact fun hne => absurd rfl hne
  · intro e he
    cases he
  · intro p edge hp
    cases hp
  · intro now hnow
    cases hnow

theorem reachable_stamped (h : Reachable TimedInit (TimedStep textWidth rnd) s) : Stamped s :=
  h.invariant (fun _ => TimedInit.stamped) fun _ _ _ hs hstep => hstep.stamped hs

end Steps

end Main
end TWA
