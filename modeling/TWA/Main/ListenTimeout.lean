import TWA.Main.AutoResume

/-!
# The listening timeout

Listening ends after three minutes without speech.  A pass compares its own stamp with
the stamp of the last speech event and with that of the pass in which listening began.
The speech stamp may be the newer one, since a pass waits while a button is debounced.
-/

namespace TWA

open Foundation
open Foundation.Exec
open Foundation.WrappingClock
open VoiceClient

namespace Main

def TimeoutDue (now : UInt32) (m : AppLoop) (s : Shared) : Prop :=
  (if s.lastVadMs = 0 then 0xFFFFFFFF else now - s.lastVadMs) > Config.listenTimeoutMs ∧
    now - m.listenStarted > Config.listenTimeoutMs

instance (now : UInt32) (m : AppLoop) (s : Shared) : Decidable (TimeoutDue now m s) :=
  inferInstanceAs (Decidable (_ ∧ _))

/-- The next step of the loop makes the test, in the pass `p`. -/
def TestsTimeout (p : Pass) (s : System) : Prop :=
  (s.mainPc = .machine p false ∧ s.app.state = .listening) ∨ s.mainPc = .listenDebounce p

def TakesTimeout (s : System) : Prop :=
  exists p, TestsTimeout p s ∧ TimeoutDue p.now s.app s.shared

/-- Three minutes have passed at the given time since someone spoke, and since listening
began. -/
def QuietLongEnough (time : Nat) (s : Timed) : Prop :=
  (forall v, s.spoke = some v -> v + Config.listenTimeoutMs.toNat < time) ∧
    forall e, s.entered = some e -> e.time + Config.listenTimeoutMs.toNat < time

def LooksYoung (passTime v : Nat) : Prop :=
  v % 2 ^ 32 ≠ 0 ∧
    if v ≤ passTime then (passTime - v) % 2 ^ 32 ≤ 180000
    else (v - passTime) % 2 ^ 32 = 0 ∨ 2 ^ 32 ≤ (v - passTime) % 2 ^ 32 + 180000

/-- The stamps do not hide that someone has spoken, or that listening has just begun. -/
def StampsShow (time : Nat) (s : Timed) : Prop :=
  forall e, s.entered = some e ->
    (s.passTime - e.pass) % 2 ^ 32 ≤ 180000 ∨
      match s.spoke with
      | none => e.time + 180000 < time
      | some v =>
          if time ≤ v + 180000 then
            v % 2 ^ 32 ≠ 0 ∧
              (v ≤ s.passTime ∨ (v - s.passTime) % 2 ^ 32 = 0 ∨
                2 ^ 32 ≤ (v - s.passTime) % 2 ^ 32 + 180000)
          else
            e.time + 180000 < time ∨ LooksYoung s.passTime v

section Tests

variable {textWidth : Text -> Int} {rnd : Rat -> Rat} {s t : Timed} {p : Pass}

theorem timeoutMs : Config.listenTimeoutMs.toNat = 180000 :=
  rfl

theorem TestsTimeout.pass (h : TestsTimeout p s.sys) : s.sys.mainPc.pass = some p := by
  rcases h with ⟨hpc, _⟩ | hpc
  · rw [hpc]
    rfl
  · rw [hpc]
    rfl

theorem TestsTimeout.entered (hs : Stamped s) (h : TestsTimeout p s.sys) :
    exists e, s.entered = some e := by
  apply Option.ne_none_iff_exists'.mp
  apply hs.begun
  rcases h with ⟨_, hstate⟩ | hpc
  · rw [hstate]
    simp
  · have hplaced := hs.placed
    rw [hpc] at hplaced
    exact hplaced

theorem timeoutDue_iff (hs : Stamped s) (hpc : s.sys.mainPc.pass = some p) {e : Moment}
    (he : s.entered = some e) :
    TimeoutDue p.now s.sys.app s.sys.shared <->
      (forall v, s.spoke = some v -> ¬ LooksYoung s.passTime v) ∧
        180000 < (s.passTime - e.pass) % 2 ^ 32 := by
  have hnow := hs.pass p hpc
  have hlisten : p.now - s.sys.app.listenStarted > Config.listenTimeoutMs <->
      180000 < (s.passTime - e.pass) % 2 ^ 32 := by
    rw [hnow, hs.started e he, gt_iff_lt, UInt32.lt_iff_toNat_lt,
      toNat_stamp_sub (hs.entered_past e he).2.2, timeoutMs]
  unfold TimeoutDue
  rw [hlisten]
  apply and_congr_left'
  cases hspoke : s.spoke with
  | none =>
      have hzero := hs.spoke
      rw [hspoke] at hzero
      rw [if_pos hzero]
      simp only [reduceCtorEq, false_imp_iff, imp_true_iff, iff_true]
      decide
  | some v =>
      have hstamp := hs.spoke
      rw [hspoke] at hstamp
      change s.sys.shared.lastVadMs = stamp v at hstamp
      simp only [Option.some.injEq, forall_eq']
      unfold LooksYoung
      rw [hstamp]
      by_cases hzero : v % 2 ^ 32 = 0
      · rw [if_pos ((stamp_eq_zero v).mpr hzero)]
        simp only [hzero, ne_eq, not_true_eq_false, false_and, not_false_eq_true, iff_true]
        decide
      · rw [if_neg ((stamp_eq_zero v).not.mpr hzero), hnow, gt_iff_lt,
          UInt32.lt_iff_toNat_lt, timeoutMs]
        by_cases hle : v ≤ s.passTime
        · rw [toNat_stamp_sub hle, if_pos hle]
          omega
        · rw [toNat_stamp_sub_back (by omega), if_neg hle]
          omega

theorem listenTimeout_idle (now : UInt32) {m : AppLoop} (u : Shared) (hne : m.state ≠ .idle) :
    (listenTimeout now m u).1.state = .idle <-> TimeoutDue now m u := by
  have heq : listenTimeout now m u =
      if TimeoutDue now m u then stopListening now m u else (m, u) := rfl
  rw [heq]
  split
  · rename_i hdue
    exact ⟨fun _ => hdue, fun _ => rfl⟩
  · rename_i hdue
    exact ⟨fun hidle => absurd hidle hne, fun hcontra => absurd hcontra hdue⟩

theorem listeningArm_idle {mic : Option (List UInt8)} {pc' : MainPc} {m m' : AppLoop}
    {u u' : Shared} (hstate : m.state = .listening)
    (h : listeningArm mic p false m u = .ok (pc', m', u')) :
    m'.state = .idle <-> TimeoutDue p.now m u := by
  have hread : (readMic mic u).lastVadMs = u.lastVadMs := by
    unfold readMic
    split
    · rfl
    · split <;> rfl
  have hsame : TimeoutDue p.now m (readMic mic u) <-> TimeoutDue p.now m u := by
    unfold TimeoutDue
    rw [hread]
  rcases bind_eq_ok.mp h with ⟨n, _, h⟩
  injection h with h
  injection h with _ hr
  split at hr
  · have hplaying : (startPlaying m (readMic mic u)).1.state ≠ .idle := by
      simp [startPlaying]
    have hidle := listenTimeout_idle p.now (startPlaying m (readMic mic u)).2 hplaying
    rw [hr] at hidle
    exact hidle.trans hsame
  · have hlistening : m.state ≠ .idle := by simp [hstate]
    have hidle := listenTimeout_idle p.now (readMic mic u) hlistening
    rw [hr] at hidle
    exact hidle.trans hsame

theorem TimedStep.timeout_iff {time : Nat} {inp : MainInput} (hs : Stamped s)
    (hstep : TimedStep textWidth rnd (time, .main inp) s t) (hlow : inp.low = false)
    (htest : TestsTimeout p s.sys) :
    t.sys.app.state = .idle <-> TimeoutDue p.now s.sys.app s.sys.shared := by
  have hmain := hstep.main
  rcases htest with ⟨hpc, hstate⟩ | hpc
  · rw [hpc] at hmain
    unfold mainStep at hmain
    simp only [hstate] at hmain
    exact listeningArm_idle hstate hmain
  · have hplaced := hs.placed
    rw [hpc] at hplaced hmain
    have hne : s.sys.app.state ≠ .idle := hplaced
    injection hmain with hmain
    injection hmain with _ hr
    have hstays : exitListening textWidth inp.low p.now s.sys.app s.sys.shared =
        (s.sys.app, s.sys.shared) := if_neg (by simp [hlow])
    rw [hstays] at hr
    have hidle := listenTimeout_idle p.now s.sys.shared hne
    rw [hr] at hidle
    exact hidle

/-- Recent speech looks young unless its stamp is zero or newer than the pass. -/
theorem looksYoung_of_recent {time passTime v : Nat} (hpass : passTime ≤ time)
    (hrecent : time ≤ v + 180000) :
    LooksYoung passTime v <->
      v % 2 ^ 32 ≠ 0 ∧
        (v ≤ passTime ∨ (v - passTime) % 2 ^ 32 = 0 ∨
          2 ^ 32 ≤ (v - passTime) % 2 ^ 32 + 180000) := by
  unfold LooksYoung
  by_cases hle : v ≤ passTime
  · rw [if_pos hle]
    omega
  · rw [if_neg hle]
    simp only [hle, false_or]

theorem stampsShow_iff {time : Nat} (hpass : s.passTime ≤ time) {e : Moment}
    (he : s.entered = some e) :
    StampsShow time s <->
      ((forall v, s.spoke = some v -> ¬ LooksYoung s.passTime v) ∧
        180000 < (s.passTime - e.pass) % 2 ^ 32 -> QuietLongEnough time s) := by
  unfold StampsShow QuietLongEnough
  rw [timeoutMs, he]
  simp only [Option.some.injEq, forall_eq']
  cases hspoke : s.spoke with
  | none =>
      simp only [reduceCtorEq, false_imp_iff, imp_true_iff, true_and]
      omega
  | some v =>
      simp only [Option.some.injEq, forall_eq']
      by_cases hrecent : time ≤ v + 180000
      · rw [if_pos hrecent, ← looksYoung_of_recent hpass hrecent]
        by_cases hyoung : LooksYoung s.passTime v
        · simp only [hyoung, or_true, not_true_eq_false, false_and, false_imp_iff]
        · simp only [hyoung, or_false, not_false_eq_true, true_and]
          omega
      · rw [if_neg hrecent]
        by_cases hyoung : LooksYoung s.passTime v
        · simp only [hyoung, or_true, not_true_eq_false, false_and, false_imp_iff]
        · simp only [hyoung, or_false, not_false_eq_true, true_and]
          omega

/-- The timeout is taken in time at just those tests at which the stamps hide nothing. -/
theorem listening_timeout_in_time_iff {time : Nat} {inp : MainInput}
    (hreach : Reachable TimedInit (TimedStep textWidth rnd) s)
    (hstep : TimedStep textWidth rnd (time, .main inp) s t) :
    ((TakesTimeout s.sys -> QuietLongEnough time s) <->
        ((exists p, TestsTimeout p s.sys) -> StampsShow time s)) ∧
      (forall p, TestsTimeout p s.sys -> inp.low = false ->
        (t.sys.app.state = .idle <-> TakesTimeout s.sys)) := by
  have hs := reachable_stamped hreach
  have hpass : s.passTime ≤ time := Nat.le_trans hs.pass_le hstep.order
  have htakes {p : Pass} (htest : TestsTimeout p s.sys) :
      TakesTimeout s.sys <-> TimeoutDue p.now s.sys.app s.sys.shared := by
    constructor
    · intro htakes
      rcases htakes with ⟨q, hq, hdue⟩
      have hsame : some p = some q := htest.pass.symm.trans hq.pass
      injection hsame with hsame
      rw [hsame]
      exact hdue
    · exact fun hdue => ⟨p, htest, hdue⟩
  constructor
  · constructor
    · intro htimeout htests
      rcases htests with ⟨p, htest⟩
      rcases htest.entered hs with ⟨e, he⟩
      rw [stampsShow_iff hpass he, ← timeoutDue_iff hs htest.pass he, ← htakes htest]
      exact htimeout
    · intro hshow htaken
      rcases htaken with ⟨p, htest, hdue⟩
      rcases htest.entered hs with ⟨e, he⟩
      have hstamps := hshow ⟨p, htest⟩
      rw [stampsShow_iff hpass he, ← timeoutDue_iff hs htest.pass he] at hstamps
      exact hstamps hdue
  · intro p htest hlow
    rw [hstep.timeout_iff hs hlow htest, htakes htest]

end Tests

/-!
## A button that bounces
-/

section Debounce

def listeningRest (a : AudioOutput) (time : Nat) : Timed :=
  { Timed.boot a with
    sys :=
      { mainPc := .rest
        app := listeningLoop (stamp 6000)
        voicePc := .waiting (stamp 5999)
        shared := listeningShared a }
    clock := time
    passTime := time
    roundTime := 5999
    entered := some ⟨6000, 6000⟩ }

def debouncePass (a : AudioOutput) (time : Nat) : Timed :=
  { Timed.boot a with
    sys :=
      { mainPc := .listenDebounce ⟨stamp time, true, false⟩
        app := { listeningLoop (stamp 6000) with prevTalk := true }
        voicePc := .waiting (stamp 5999)
        shared := listeningShared a }
    clock := time
    passTime := time
    roundTime := 5999
    entered := some ⟨6000, 6000⟩ }

def spokenPass (a : AudioOutput) (time : Nat) : Timed :=
  { debouncePass a time with
    sys :=
      { (debouncePass a time).sys with
        voicePc := .waiting (stamp (time + 20))
        shared := { listeningShared a with lastVadMs := stamp (time + 10) } }
    clock := time + 20
    roundTime := time + 20
    spoke := some (time + 10) }

theorem listeningArm_pressed {p : Pass} {m : AppLoop} {s : Shared}
    (hbuffered : s.audio.buffered = .ok 0) :
    listeningArm none p true m s = .ok (.listenDebounce p, m, s) := by
  have hread : readMic none s = s := rfl
  unfold listeningArm
  simp only [hread, hbuffered, ok_bind, gt_iff_lt, Nat.lt_irrefl, if_false, if_true]
  rfl

theorem listeningArm_quiet {p : Pass} {m : AppLoop} {s : Shared}
    (hbuffered : s.audio.buffered = .ok 0)
    (hyoung : ¬ p.now - m.listenStarted > Config.listenTimeoutMs) :
    listeningArm none p false m s = .ok (.volUp p, m, s) := by
  have hread : readMic none s = s := rfl
  unfold listeningArm listenTimeout
  simp only [hread, hbuffered, ok_bind, gt_iff_lt, Nat.lt_irrefl, if_false, Bool.false_eq_true]
  rw [if_neg fun hdue => hyoung hdue.2]
  rfl

theorem listeningRest_reachable (textWidth : Text -> Int) (rnd : Rat -> Rat) (k : Nat)
    (hk : k ≤ 180000) :
    Reachable TimedInit (TimedStep textWidth rnd)
      (listeningRest (.new fun _ => true) (6000 + k)) := by
  have hsilent : Silent (.new fun _ => true) := new_silent _
  have hbuffered : (AudioOutput.new fun _ => true).buffered = .ok 0 :=
    withRing_buffered (by decide)
  induction k with
  | zero =>
      have hauto : autoListen ⟨stamp 6000, true, false⟩ AppLoop.boot = true := by decide
      have hidle := idlePass_reachable textWidth rnd (fun _ => true) (Nat.le_succ 5999)
      have hlistens := hidle.step_trans (TimedStep.of_step 6000
        (l := .main (calm (stamp 6000))) (Step.main rfl (congrArg Except.ok (idleArm_auto hauto)))
        (Nat.le_refl _) (calm_reads _ _))
      have hup := hlistens.step_trans (TimedStep.of_step 6000 (l := .main (calm (stamp 6000)))
        (Step.main rfl rfl) (Nat.le_refl _) (calm_reads _ _))
      have hdown := hup.step_trans (TimedStep.of_step 6000 (l := .main (calm (stamp 6000)))
        (Step.main rfl rfl) (Nat.le_refl _) (calm_reads _ _))
      exact hdown
  | succ k ih =>
      have hyoung : ¬ stamp (6000 + k + 1) - stamp 6000 > Config.listenTimeoutMs := by
        rw [gt_iff_lt, UInt32.lt_iff_toNat_lt, toNat_stamp_sub (by omega)]
        rw [timeoutMs]
        omega
      have hrested := (ih (by omega)).step_trans (TimedStep.of_step (6000 + k + 1)
        (l := .main (calm (stamp (6000 + k + 1)))) (Step.main rfl rfl) (Nat.le_succ _)
        (calm_reads _ _))
      have htop := hrested.step_trans (TimedStep.of_step (6000 + k + 1)
        (Step.main rfl (passTop_silent hsilent (calm (stamp (6000 + k + 1))) _ _ rfl rfl))
        (Nat.le_refl _) (calm_reads _ _))
      have hmachine := htop.step_trans (TimedStep.of_step (6000 + k + 1)
        (l := .main (calm (stamp (6000 + k + 1))))
        (Step.main rfl (listeningArm_quiet hbuffered hyoung)) (Nat.le_refl _) (calm_reads _ _))
      have hup := hmachine.step_trans (TimedStep.of_step (6000 + k + 1)
        (l := .main (calm (stamp (6000 + k + 1)))) (Step.main rfl rfl) (Nat.le_refl _)
        (calm_reads _ _))
      have hdown := hup.step_trans (TimedStep.of_step (6000 + k + 1)
        (l := .main (calm (stamp (6000 + k + 1)))) (Step.main rfl rfl) (Nat.le_refl _)
        (calm_reads _ _))
      exact hdown

theorem debouncePass_reachable (textWidth : Text -> Int) (rnd : Rat -> Rat) :
    Reachable TimedInit (TimedStep textWidth rnd)
      (debouncePass (.new fun _ => true) 186001) := by
  have hsilent : Silent (.new fun _ => true) := new_silent _
  have hbuffered : (AudioOutput.new fun _ => true).buffered = .ok 0 :=
    withRing_buffered (by decide)
  have hrests := listeningRest_reachable textWidth rnd 180000 (Nat.le_refl _)
  have hrested := hrests.step_trans (TimedStep.of_step 186001
    (l := .main (calm (stamp 186001))) (Step.main rfl rfl) (Nat.le_succ _) (calm_reads _ _))
  have htop := hrested.step_trans (TimedStep.of_step 186001
    (l := .main { calm (stamp 186001) with low := true })
    (Step.main rfl (passTop_silent hsilent _ _ _ rfl rfl)) (Nat.le_refl _) fun _ => rfl)
  have hmachine := htop.step_trans (TimedStep.of_step 186001 (l := .main (calm (stamp 186001)))
    (Step.main rfl (listeningArm_pressed hbuffered)) (Nat.le_refl _) (calm_reads _ _))
  exact hmachine

def vadFrame : List UInt8 :=
  Json.bytes "\x7b\"type\":\"vad.speaking\",\"speaking\":true\x7d"

theorem vadFrame_event : parseServerMessage vadFrame = .ok (.vadSpeaking true) := by
  decide +kernel

theorem spokenPass_reachable (textWidth : Text -> Int) (rnd : Rat -> Rat) :
    Reachable TimedInit (TimedStep textWidth rnd)
      (spokenPass (.new fun _ => true) 186001) := by
  have hdebounce := debouncePass_reachable textWidth rnd
  have hother := hdebounce.step_trans (TimedStep.of_step 186001 (l := .voice .other)
    (Step.voice rfl rfl) (Nat.le_refl _) trivial)
  have hround := hother.step_trans (TimedStep.of_step 186011
    (l := .voice (.clock (stamp 186011))) (Step.voice rfl rfl) (Nat.le_add_right 186001 10) rfl)
  have hgo := hround.step_trans (TimedStep.of_step 186011 (l := .voice .go)
    (Step.voice rfl rfl) (Nat.le_refl _) trivial)
  have hspeaks := hgo.step_trans (TimedStep.of_step 186016 (l := .voice (.text vadFrame))
    (Step.text rfl rfl vadFrame_event rfl) (by simp [observe]) trivial)
  have hagain := hspeaks.step_trans (TimedStep.of_step 186021
    (l := .voice (.clock (stamp 186021))) (Step.voice rfl rfl) (by simp [observe]) rfl)
  have hwaits := hagain.step_trans (TimedStep.of_step 186021 (l := .voice .go)
    (Step.voice rfl rfl) (Nat.le_refl _) trivial)
  exact hwaits

theorem debounce_step (textWidth : Text -> Int) (rnd : Rat -> Rat) {s : Timed} {p : Pass}
    (hpc : s.sys.mainPc = .listenDebounce p) (hvoice : s.sys.voicePc.suspended = true)
    (time : Nat) (htime : s.clock ≤ time) :
    exists t, TimedStep textWidth rnd (time, .main (calm 0)) s t := by
  have hmain : mainStep textWidth rnd (calm 0) s.sys.mainPc s.sys.app s.sys.shared =
      .ok (.volUp p, listenTimeout p.now s.sys.app s.sys.shared) := by
    rw [hpc]
    rfl
  refine ⟨_, TimedStep.of_step time (Step.main hvoice hmain) htime fun htop => ?_⟩
  rw [hpc] at htop
  cases htop

/-- Nobody has spoken for more than three minutes. -/
theorem listening_timeout_in_time_iff_silence :
    exists t, TimedStep monospace F32.round (186031, .main (calm 0))
        (debouncePass (.new fun _ => true) 186001) t ∧
      TakesTimeout (debouncePass (.new fun _ => true) 186001).sys ∧
      QuietLongEnough 186031 (debouncePass (.new fun _ => true) 186001) := by
  have hreach := debouncePass_reachable monospace F32.round
  rcases debounce_step monospace F32.round (s := debouncePass (.new fun _ => true) 186001)
    rfl rfl 186031 (by decide) with ⟨t, hstep⟩
  have htakes : TakesTimeout (debouncePass (.new fun _ => true) 186001).sys :=
    ⟨_, Or.inr rfl, by decide⟩
  refine ⟨t, hstep, htakes,
    (listening_timeout_in_time_iff hreach hstep).1.mpr (fun _ => ?_) htakes⟩
  intro e he
  cases he
  exact Or.inr (show 6000 + 180000 < 186031 by decide)

/-- Someone speaks while the button is debounced, and twenty milliseconds later the
timeout ends listening. -/
theorem timeout_cuts_speaker_off :
    exists s t, Reachable TimedInit (TimedStep monospace F32.round) s ∧
      TimedStep monospace F32.round (186031, .main (calm 0)) s t ∧
      s.spoke = some 186011 ∧ TakesTimeout s.sys ∧ t.sys.app.state = .idle ∧
      ¬ QuietLongEnough 186031 s := by
  have hreach := spokenPass_reachable monospace F32.round
  rcases debounce_step monospace F32.round (s := spokenPass (.new fun _ => true) 186001)
    rfl rfl 186031 (by decide) with ⟨t, hstep⟩
  have hdue : TimeoutDue (stamp 186001) (spokenPass (.new fun _ => true) 186001).sys.app
      (spokenPass (.new fun _ => true) 186001).sys.shared := by
    decide
  refine ⟨_, t, hreach, hstep, rfl, ⟨_, Or.inr rfl, hdue⟩, ?_, fun hquiet => ?_⟩
  · exact (hstep.timeout_iff (reachable_stamped hreach) rfl (Or.inr rfl)).mpr hdue
  · have hlate := hquiet.1 186011 rfl
    rw [timeoutMs] at hlate
    omega

end Debounce

end Main
end TWA
