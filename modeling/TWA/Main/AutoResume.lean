import TWA.Main.Clock

/-!
# Listening again after a cooldown

An idle loop listens again on its own once the device has been up for five seconds
and the cooldown is over.  Both tests are made on stamps: the first is absolute, and
the second asks whether a wrapping difference lies in the lower half.
-/

namespace TWA

open Foundation
open Foundation.Exec
open Foundation.WrappingClock

namespace Main

def Cooling (s : Timed) : Prop :=
  exists e, s.left = some e ∧ s.passTime < e.time + Config.listenCooldownMs.toNat

def MainPc.settled : MainPc -> Bool
  | .volUp _ | .upDebounce _ | .volDown _ | .downDebounce _ | .rest | .top => true
  | _ => false

section Promise

variable (textWidth : Text -> Int) (rnd : Rat -> Rat)

/-- A pass that finds the loop idle leaves it so during the cooldown, unless the button
is pressed, and listens afterwards if the session is up and the device was started long
enough ago. -/
structure ResumesInTime (p : Pass) (talkEdge : Bool) (s t : Timed) : Prop where
  waits : talkEdge = false -> Cooling s -> t.sys.mainPc = .volUp p ∧
    forall ls u, Run (Guarded (fun _ s => s.sys.mainPc.settled = true)
      (TimedStep textWidth rnd)) t ls u -> u.sys.app.state = .idle
  resumes : p.wsUp = true -> 5000 < s.passTime -> ¬ Cooling s ->
    t.sys.app.state = .listening ∧ t.sys.shared.micActive = true ∧ t.sys.mainPc = .volUp p

end Promise

def StampsTell (talkEdge : Bool) (s : Timed) : Prop :=
  match s.left with
  | none =>
      s.passTime ≤ 5000 ∨ (5000 < s.passTime % 2 ^ 32 ∧ s.passTime % 2 ^ 32 < 2 ^ 31 - 1)
  | some e =>
      if s.passTime < e.time + 8000 then
        talkEdge = true ∨ s.passTime < e.pass + 8000 ∨ s.passTime % 2 ^ 32 ≤ 5000 ∨
          2 ^ 31 - 1 ≤ (s.passTime - (e.pass + 8000)) % 2 ^ 32
      else
        5000 < s.passTime % 2 ^ 32 ∧
          (s.passTime - (e.pass + 8000)) % 2 ^ 32 < 2 ^ 31 - 1

def Resumable (s : Timed) : Prop :=
  5000 < s.passTime % 2 ^ 32 ∧
    match s.left with
    | none => s.passTime % 2 ^ 32 < 2 ^ 31 - 1
    | some e =>
        e.pass + 8000 ≤ s.passTime ∧
          (s.passTime - (e.pass + 8000)) % 2 ^ 32 < 2 ^ 31 - 1

section Tests

variable {textWidth : Text -> Int} {rnd : Rat -> Rat} {s t : Timed} {p : Pass}
  {talkEdge : Bool}

theorem autoListen_iff (hs : Stamped s) (hpc : s.sys.mainPc.pass = some p) :
    autoListen p s.sys.app = true <-> p.wsUp = true ∧ Resumable s := by
  have hnow := hs.pass p hpc
  have hcool := hs.cooldown
  have hup : p.now > 5000 <-> 5000 < s.passTime % 2 ^ 32 := by
    rw [hnow, gt_iff_lt, UInt32.lt_iff_toNat_lt, toNat_stamp]
    rfl
  have hhalf : (0xFFFFFFFF / 2 : UInt32).toNat = 2 ^ 31 - 1 := rfl
  have hover : p.now - s.sys.app.cooldownUntil < 0xFFFFFFFF / 2 <->
      match s.left with
      | none => s.passTime % 2 ^ 32 < 2 ^ 31 - 1
      | some e =>
          e.pass + 8000 ≤ s.passTime ∧
            (s.passTime - (e.pass + 8000)) % 2 ^ 32 < 2 ^ 31 - 1 := by
    rw [UInt32.lt_iff_toNat_lt, hhalf, hcool, hnow]
    cases hleft : s.left with
    | none =>
        have hzero : cooldownEnd none = stamp 0 := rfl
        rw [hzero, toNat_stamp_sub (Nat.zero_le _), Nat.sub_zero]
    | some e =>
        have hend : cooldownEnd (some e) = stamp (e.pass + 8000) := stamp_add e.pass 8000
        have hbefore := (hs.left_past e hleft).2.2
        rw [hend]
        by_cases hle : e.pass + 8000 ≤ s.passTime
        · rw [toNat_stamp_sub hle]
          simp only [hle, true_and]
        · -- before its end the difference is almost a full turn
          rw [toNat_stamp_sub_back (by omega)]
          simp only [hle, false_and, iff_false]
          omega
  unfold autoListen Resumable
  rw [Bool.and_eq_true, Bool.and_eq_true, Bool.and_eq_true, decide_eq_true_eq,
    decide_eq_true_eq, hup, hover]
  simp only [Config.autoListenOnBoot, true_and]
  exact and_assoc

theorem stampsTell_iff (hs : Stamped s) :
    StampsTell talkEdge s <->
      (talkEdge = false -> Cooling s -> ¬ Resumable s) ∧
        (5000 < s.passTime -> ¬ Cooling s -> Resumable s) := by
  have hcooldown : Config.listenCooldownMs.toNat = 8000 := rfl
  unfold StampsTell Cooling Resumable
  rw [hcooldown]
  cases hleft : s.left with
  | none =>
      simp only [reduceCtorEq, false_and, exists_false, not_false_eq_true, false_imp_iff,
        imp_true_iff, true_imp_iff, true_and]
      omega
  | some e =>
      have horder := (hs.left_past e hleft).1
      simp only [Option.some.injEq, exists_eq_left']
      by_cases hcool : s.passTime < e.time + 8000
      · rw [if_pos hcool]
        cases talkEdge with
        | true => simp [hcool]
        | false =>
            simp only [hcool, Bool.false_eq_true, false_or, not_true_eq_false, true_imp_iff,
              false_imp_iff, imp_true_iff, and_true]
            omega
      · rw [if_neg hcool]
        simp only [hcool, not_false_eq_true, false_imp_iff, imp_true_iff, true_imp_iff,
          true_and]
        omega

theorem mainStep_idle {inp : MainInput} {pc' : MainPc} {m m' : AppLoop} {u u' : Shared}
    (hidle : m.state = .idle)
    (h : mainStep textWidth rnd inp (.machine p talkEdge) m u = .ok (pc', m', u')) :
    (autoListen p m = true ∧ m'.state = .listening ∧ u'.micActive = true ∧
      pc' = .volUp p) ∨
      (autoListen p m = false ∧ m'.state = .idle ∧ (talkEdge = false -> pc' = .volUp p)) := by
  unfold mainStep at h
  simp only [hidle, idleArm] at h
  split at h
  · rename_i hauto
    cases h
    exact Or.inl ⟨hauto, rfl, rfl, rfl⟩
  · rename_i hauto
    refine Or.inr ⟨Bool.eq_false_iff.mpr hauto, ?_⟩
    split at h
    · rename_i hedge
      cases h
      refine ⟨hidle, fun hcontra => ?_⟩
      rw [hedge] at hcontra
      cases hcontra
    · cases h
      exact ⟨hidle, fun _ => rfl⟩

theorem mainStep_settled {inp : MainInput} {pc pc' : MainPc} {m m' : AppLoop}
    {u u' : Shared} (hpc : pc.settled = true)
    (h : mainStep textWidth rnd inp pc m u = .ok (pc', m', u')) : m'.state = m.state := by
  cases pc with
  | top =>
      rw [(passTop_next h).2.1]
  | volUp p =>
      unfold mainStep at h
      simp only at h
      split at h <;> cases h <;> rfl
  | upDebounce p =>
      cases h
      rfl
  | volDown p =>
      unfold mainStep at h
      simp only at h
      split at h <;> cases h <;> rfl
  | downDebounce p =>
      cases h
      rfl
  | rest =>
      cases h
      rfl
  | _ => cases hpc

theorem settled_run {ls : List (Nat × Label)}
    (hrun : Run (Guarded (fun _ s => s.sys.mainPc.settled = true) (TimedStep textWidth rnd))
      s ls t) : t.sys.app.state = s.sys.app.state := by
  refine hrun.invariant (P := fun u => u.sys.app.state = s.sys.app.state) ?_ rfl
  intro l u v hu hguarded
  rcases l with ⟨time, l⟩
  rcases hguarded with ⟨hsettled, hstep⟩
  refine Eq.trans ?_ hu
  have hsys := hstep.step
  generalize v.sys = sys at hsys
  cases hsys with
  | main _ hmain => exact mainStep_settled hsettled hmain
  | voice _ _ => rfl

/-- Auto-resumption comes in time in just the passes whose stamps give the right
answer. -/
theorem auto_resume_in_time_iff {time : Nat} {inp : MainInput}
    (hreach : Reachable TimedInit (TimedStep textWidth rnd) s)
    (hpc : s.sys.mainPc = .machine p talkEdge) (hidle : s.sys.app.state = .idle)
    (hstep : TimedStep textWidth rnd (time, .main inp) s t) :
    ResumesInTime textWidth rnd p talkEdge s t <-> (p.wsUp = true -> StampsTell talkEdge s) := by
  have hs := reachable_stamped hreach
  have hauto := autoListen_iff hs (p := p) (by rw [hpc]; rfl)
  rw [stampsTell_iff hs]
  have hmain := hstep.main
  rw [hpc] at hmain
  rcases mainStep_idle hidle hmain with ⟨hon, hstate, hmic, hnext⟩ | ⟨hoff, hstate, hnext⟩
  · have htest := hauto.mp hon
    constructor
    · intro hresumes _
      refine ⟨fun hedge hcool _ => ?_, fun _ _ => htest.2⟩
      rw [(hresumes.waits hedge hcool).2 [] t (Run.nil t)] at hstate
      cases hstate
    · intro hstamps
      refine ⟨fun hedge hcool => ?_, fun _ _ _ => ⟨hstate, hmic, hnext⟩⟩
      exact absurd htest.2 ((hstamps htest.1).1 hedge hcool)
  · have htest : p.wsUp = true -> ¬ Resumable s := by
      intro hup hresumable
      rw [hauto.mpr ⟨hup, hresumable⟩] at hoff
      cases hoff
    constructor
    · intro hresumes hup
      refine ⟨fun _ _ => htest hup, fun hlate hover => ?_⟩
      rw [(hresumes.resumes hup hlate hover).1] at hstate
      cases hstate
    · intro hstamps
      refine ⟨fun hedge _ => ⟨hnext hedge, fun ls u hrun => ?_⟩, fun hup hlate hover => ?_⟩
      · exact (settled_run hrun).trans hstate
      · exact absurd ((hstamps hup).2 hlate hover) (htest hup)

end Tests

/-!
## An idle pass
-/

def offlineRest (a : AudioOutput) (time : Nat) : Timed :=
  { Timed.boot a with
    sys :=
      { mainPc := .rest
        app := AppLoop.boot
        voicePc := .connecting
        shared := { Shared.boot a with display := Display.new.setState .offline } }
    clock := time
    passTime := time }

def idlePass (a : AudioOutput) (up time : Nat) : Timed :=
  { Timed.boot a with
    sys :=
      { mainPc := .machine ⟨stamp time, true, false⟩ false
        app := AppLoop.boot
        voicePc := .waiting (stamp up)
        shared :=
          { Shared.boot a with
            wsUp := true
            display := Display.new.setState .idle
            session := 1 } }
    clock := time
    passTime := time
    roundTime := up }

theorem calm_reads (time : Nat) (s : System) : ReadsClock time (.main (calm (stamp time))) s :=
  fun _ => rfl

theorem offlineRest_reachable (textWidth : Text -> Int) (rnd : Rat -> Rat)
    (reserve : Nat -> Bool) (time : Nat) :
    Reachable TimedInit (TimedStep textWidth rnd) (offlineRest (.new reserve) time) := by
  have hsilent := new_silent reserve
  induction time with
  | zero =>
      have hboot : Reachable TimedInit (TimedStep textWidth rnd) (Timed.boot (.new reserve)) :=
        Reachable.refl ⟨reserve, rfl⟩
      have htop := hboot.step_trans (TimedStep.of_step 0
        (Step.main rfl (passTop_silent hsilent (calm (stamp 0)) _ _ rfl rfl)) (Nat.le_refl _)
        (calm_reads _ _))
      have hmachine := htop.step_trans (TimedStep.of_step 0 (l := .main (calm (stamp 0)))
        (Step.main rfl rfl) (Nat.le_refl _) (calm_reads _ _))
      have hup := hmachine.step_trans (TimedStep.of_step 0 (l := .main (calm (stamp 0)))
        (Step.main rfl rfl) (Nat.le_refl _) (calm_reads _ _))
      have hdown := hup.step_trans (TimedStep.of_step 0 (l := .main (calm (stamp 0)))
        (Step.main rfl rfl) (Nat.le_refl _) (calm_reads _ _))
      exact hdown
  | succ time ih =>
      have hrested := ih.step_trans (TimedStep.of_step (time + 1)
        (l := .main (calm (stamp (time + 1)))) (Step.main rfl rfl) (Nat.le_succ _)
        (calm_reads _ _))
      have htop := hrested.step_trans (TimedStep.of_step (time + 1)
        (Step.main rfl (passTop_silent hsilent (calm (stamp (time + 1))) _ _ rfl rfl))
        (Nat.le_refl _) (calm_reads _ _))
      have hmachine := htop.step_trans (TimedStep.of_step (time + 1)
        (l := .main (calm (stamp (time + 1)))) (Step.main rfl rfl) (Nat.le_refl _)
        (calm_reads _ _))
      have hup := hmachine.step_trans (TimedStep.of_step (time + 1)
        (l := .main (calm (stamp (time + 1)))) (Step.main rfl rfl) (Nat.le_refl _)
        (calm_reads _ _))
      have hdown := hup.step_trans (TimedStep.of_step (time + 1)
        (l := .main (calm (stamp (time + 1)))) (Step.main rfl rfl) (Nat.le_refl _)
        (calm_reads _ _))
      exact hdown

theorem idlePass_reachable (textWidth : Text -> Int) (rnd : Rat -> Rat)
    (reserve : Nat -> Bool) {up time : Nat} (hlater : up ≤ time) :
    Reachable TimedInit (TimedStep textWidth rnd) (idlePass (.new reserve) up time) := by
  -- the session comes up
  have hconnected := (offlineRest_reachable textWidth rnd reserve up).step_trans
    (TimedStep.of_step up (l := .voice .connected) (Step.voice rfl rfl) (Nat.le_refl _) trivial)
  have hsent := hconnected.step_trans (TimedStep.of_step up (l := .voice (.sent true))
    (Step.voice rfl rfl) (Nat.le_refl _) trivial)
  have hround := hsent.step_trans (TimedStep.of_step up (l := .voice (.clock (stamp up)))
    (Step.voice rfl rfl) (Nat.le_refl _) rfl)
  have hwaits := hround.step_trans (TimedStep.of_step up (l := .voice .go)
    (Step.voice rfl rfl) (Nat.le_refl _) trivial)
  -- the next pass
  have hrested := hwaits.step_trans (TimedStep.of_step time (l := .main (calm (stamp time)))
    (Step.main rfl rfl) hlater (calm_reads _ _))
  have hagain := hrested.step_trans (TimedStep.of_step time
    (Step.main rfl (passTop_silent (new_silent reserve) (calm (stamp time)) _ _ rfl rfl))
    (Nat.le_refl _) (calm_reads _ _))
  exact hagain

theorem idlePass_step (textWidth : Text -> Int) (rnd : Rat -> Rat) (a : AudioOutput)
    (up time : Nat) :
    exists t, TimedStep textWidth rnd (time, .main (calm 0)) (idlePass a up time) t := by
  have hstep : Step textWidth rnd (.main (calm 0)) (idlePass a up time).sys _ :=
    Step.main rfl rfl
  exact ⟨_, TimedStep.of_step time hstep (Nat.le_refl _) fun htop => by cases htop⟩

/-- Six seconds after boot. -/
theorem auto_resume_in_time_iff_after_boot :
    exists t, TimedStep monospace F32.round (6000, .main (calm 0))
        (idlePass (.new fun _ => true) 5999 6000) t ∧
      ResumesInTime monospace F32.round ⟨stamp 6000, true, false⟩ false
        (idlePass (.new fun _ => true) 5999 6000) t := by
  rcases idlePass_step monospace F32.round (.new fun _ => true) 5999 6000 with ⟨t, hstep⟩
  refine ⟨t, hstep, (auto_resume_in_time_iff (idlePass_reachable _ _ _ (Nat.le_succ _)) rfl rfl
    hstep).mpr ?_⟩
  exact fun _ => Or.inr ⟨by decide, by decide⟩

/-- Half a turn of the clock after boot, about 25 days, a session that comes up at last
is not listened to. -/
theorem idle_stays_idle_after_half_turn :
    exists s t, Reachable TimedInit (TimedStep monospace F32.round) s ∧
      s.sys.mainPc = .machine ⟨stamp (2 ^ 31), true, false⟩ false ∧
      s.sys.app.state = .idle ∧ s.passTime = 2 ^ 31 ∧ s.left = none ∧
      TimedStep monospace F32.round (2 ^ 31, .main (calm 0)) s t ∧
      t.sys.app.state = .idle ∧
      ¬ ResumesInTime monospace F32.round ⟨stamp (2 ^ 31), true, false⟩ false s t := by
  rcases idlePass_step monospace F32.round (.new fun _ => true) (2 ^ 31 - 1) (2 ^ 31) with
    ⟨t, hstep⟩
  have hauto : autoListen ⟨stamp (2 ^ 31), true, false⟩ AppLoop.boot = false := by decide
  have hmain := hstep.main
  rcases mainStep_idle rfl hmain with ⟨hon, _⟩ | ⟨_, hstate, _⟩
  · change autoListen ⟨stamp (2 ^ 31), true, false⟩ AppLoop.boot = true at hon
    rw [hauto] at hon
    cases hon
  · refine ⟨_, t, idlePass_reachable _ _ _ (Nat.sub_le _ _), rfl, rfl, rfl, rfl, hstep, hstate, ?_⟩
    intro hresumes
    have hcooling : ¬ Cooling (idlePass (.new fun _ => true) (2 ^ 31 - 1) (2 ^ 31)) := by
      intro hcool
      rcases hcool with ⟨e, he, _⟩
      cases he
    rw [(hresumes.resumes rfl (by decide) hcooling).1] at hstate
    cases hstate

end Main
end TWA
