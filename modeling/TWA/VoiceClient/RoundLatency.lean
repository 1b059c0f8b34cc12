import TWA.VoiceClient.RoundHistory
import TWA.Foundation.WrappingClock

/-!
# The latency of the first audio

A round reports how long after its first text the first audio came.  The report is stated
over the times at which the calls are made, of which the tracker sees the low 32 bits.
The tracker takes a stamp of zero for one that is not set, and it subtracts the stamps
as numbers.
-/

namespace TWA
namespace VoiceClient

open Foundation
open Foundation.WrappingClock

structure TimedCall where
  time : Nat
  call : TrackerCall
  deriving DecidableEq, Repr

namespace TrackerCall

def nowMs? : TrackerCall -> Option UInt32
  | onAssistantDelta nowMs => some nowMs
  | onAudioChunk nowMs => some nowMs
  | _ => none

def isChunk : TrackerCall -> Bool
  | onAudioChunk _ => true
  | _ => false

end TrackerCall

/-- Time goes on from call to call, and the calls are handed its stamps. -/
structure OnClock (calls : List TimedCall) : Prop where
  sorted : calls.Pairwise (fun a b => a.time ≤ b.time)
  stamped : forall c nowMs, c ∈ calls -> c.call.nowMs? = some nowMs -> nowMs = stamp c.time

def untimed (calls : List TimedCall) : List TrackerCall :=
  calls.map TimedCall.call

def timedRound (calls : List TimedCall) : List TimedCall :=
  sectionOf (fun c => c.call.opensRound) calls

/-- After `before` in its round, the call is the first delta to be accepted, and it is made
at time `t`. -/
def FirstDelta (t : Nat) (before : List TimedCall) (c : TimedCall) : Prop :=
  c.call.isDelta = true ∧ ¬Finalized (untimed before) ∧
    ¬HasAcceptedDelta (untimed before) ∧ c.time = t

/-- The first delta came at time `t`, and no chunk since. -/
def Awaits (t : Nat) (round : List TimedCall) : Prop :=
  HappenedSince (FirstDelta t) (fun c => c.call.isChunk = false) round

/-- A chunk that comes next is the first one that is accepted after the first delta of the
round, which came at time `t`. -/
def FirstAudioDue (calls : List TimedCall) (t : Nat) : Prop :=
  ¬Finalized (untimed (timedRound calls)) ∧ Awaits t (timedRound calls)

def latencyReport (calls : List TimedCall) (nowMs : UInt32) : Option UInt32 :=
  ((runTracker (untimed calls)).onAudioChunk nowMs).1.2

/-- At a chunk at time `u`, the time since the first delta is reported if the chunk is the
first one after it, and otherwise nothing is. -/
def ReportedRight (calls : List TimedCall) (u : Nat) (report : Option UInt32) : Prop :=
  (forall t, FirstAudioDue calls t ->
    exists latency, report = some latency ∧ latency.toNat = (u - t) % 2 ^ 32) ∧
  ((forall t, ¬FirstAudioDue calls t) -> report = none)

def ReportsLatency (calls : List TimedCall) : Prop :=
  forall before u nowMs after,
    calls = before ++ ⟨u, TrackerCall.onAudioChunk nowMs⟩ :: after ->
      ReportedRight before u (latencyReport before nowMs)

structure Remembers (calls : List TimedCall) (r : RoundTracker) : Prop where
  agrees : Agrees (untimed calls) r
  fresh : r.roundFinalized = false -> r.roundActive = false ->
    r.statSent = false ∧ r.llmFirstTokenMs = 0
  awaiting : r.roundFinalized = false -> forall t, Awaits t (timedRound calls) ->
    r.statSent = false ∧ r.llmFirstTokenMs = stamp t
  settled : r.roundFinalized = false -> (forall t, ¬Awaits t (timedRound calls)) ->
    r.statSent = true ∨ r.llmFirstTokenMs = 0

section OneMoreTimed

variable {calls : List TimedCall} {r : RoundTracker} {c : TimedCall} {t : Nat}

theorem untimed_snoc (calls : List TimedCall) (c : TimedCall) :
    untimed (calls ++ [c]) = untimed calls ++ [c.call] :=
  List.map_append

theorem timedRound_opens (calls : List TimedCall) (h : c.call.opensRound = true) :
    timedRound (calls ++ [c]) = [] :=
  sectionOf_snoc_opens calls h

theorem timedRound_stays (calls : List TimedCall) (h : c.call.opensRound = false) :
    timedRound (calls ++ [c]) = timedRound calls ++ [c] :=
  sectionOf_snoc_stays calls h

theorem agrees_step (h : Agrees (untimed calls) r) (c : TimedCall) :
    Agrees (untimed (calls ++ [c])) (c.call.run r) := by
  rw [untimed_snoc]
  exact agrees_snoc h c.call

theorem untimed_timedRound (calls : List TimedCall) :
    untimed (timedRound calls) = currentRound (untimed calls) := by
  induction calls using List.reverseRecOn with
  | nil => rfl
  | append_singleton calls c ih =>
      cases hopens : c.call.opensRound with
      | true =>
          rw [timedRound_opens calls hopens, untimed_snoc]
          exact (sectionOf_snoc_opens _ hopens).symm
      | false =>
          rw [timedRound_stays calls hopens, untimed_snoc, untimed_snoc, ih]
          exact (sectionOf_snoc_stays _ hopens).symm

theorem awaits_snoc (round : List TimedCall) (c : TimedCall) :
    Awaits t (round ++ [c]) <->
      FirstDelta t round c ∨ (c.call.isChunk = false ∧ Awaits t round) :=
  happenedSince_snoc round c

theorem not_awaits_nil : ¬Awaits t [] :=
  happenedSince_nil

theorem Awaits.accepted {round : List TimedCall} (h : Awaits t round) :
    HasAcceptedDelta (untimed round) := by
  rcases h with ⟨before, c, after, hsplit, ⟨hdelta, hopen, _, _⟩, _⟩
  refine ⟨untimed before, c.call, untimed after, ?_, ⟨hdelta, hopen⟩, fun _ _ => trivial⟩
  rw [hsplit]
  exact List.map_append

theorem not_accepted (hagrees : Agrees (untimed calls) r) (hopen : r.roundFinalized = false)
    (hidle : r.roundActive = false) : ¬HasAcceptedDelta (untimed (timedRound calls)) := by
  rw [untimed_timedRound]
  intro haccepted
  have hactive := hagrees.active.mpr ⟨haccepted, hagrees.open_iff.mp hopen⟩
  rw [hidle] at hactive
  cases hactive

theorem accepted (hagrees : Agrees (untimed calls) r) (hactive : r.roundActive = true) :
    HasAcceptedDelta (untimed (timedRound calls)) := by
  rw [untimed_timedRound]
  exact (hagrees.active.mp hactive).1

theorem run_quiet {c : TrackerCall} (r : RoundTracker) (hstays : c.opensRound = false)
    (hquiet : c.nowMs? = none) (hopen : (c.run r).roundFinalized = false) :
    r.roundFinalized = false ∧ (c.run r).roundActive = r.roundActive ∧
      (c.run r).statSent = r.statSent ∧ (c.run r).llmFirstTokenMs = r.llmFirstTokenMs := by
  have hsame : (c.run r).statSent = r.statSent ∧
      (c.run r).llmFirstTokenMs = r.llmFirstTokenMs := by
    cases c with
    | onAsrResult => cases hstays
    | reset => cases hstays
    | onAssistantDelta _ => cases hquiet
    | onAudioChunk _ => cases hquiet
    | micStart => exact ⟨rfl, rfl⟩
    | micPause => exact ⟨rfl, rfl⟩
    | finalizePartial => exact ⟨rfl, rfl⟩
    | onVoiceAudioStart =>
        simp only [TrackerCall.run, RoundTracker.onVoiceAudioStart]
        split <;> exact ⟨rfl, rfl⟩
    | onAudioDone =>
        simp only [TrackerCall.run, RoundTracker.onAudioDone]
        split <;> exact ⟨rfl, rfl⟩
    | onCompleted =>
        simp only [TrackerCall.run, RoundTracker.onCompleted]
        split <;> exact ⟨rfl, rfl⟩
    | resumeMicOnError =>
        simp only [TrackerCall.run, RoundTracker.resumeMicOnError]
        split <;> exact ⟨rfl, rfl⟩
  have hround : r.roundFinalized = false ∧ (c.run r).roundActive = r.roundActive := by
    cases c <;> simp_all [TrackerCall.run, TrackerCall.opensRound, TrackerCall.nowMs?]
  exact ⟨hround.1, hround.2, hsame⟩

theorem awaits_quiet (round : List TimedCall) (hquiet : c.call.nowMs? = none) :
    Awaits t (round ++ [c]) <-> Awaits t round := by
  have hdelta : c.call.isDelta = false := by
    cases hcall : c.call <;> simp_all [TrackerCall.nowMs?, TrackerCall.isDelta]
  have hchunk : c.call.isChunk = false := by
    cases hcall : c.call <;> simp_all [TrackerCall.nowMs?, TrackerCall.isChunk]
  rw [awaits_snoc]
  simp [FirstDelta, hdelta, hchunk]

theorem Remembers.of_finalized (hagrees : Agrees (untimed calls) r)
    (hfinal : r.roundFinalized = true) : Remembers calls r := by
  have hclosed : r.roundFinalized ≠ false := by
    rw [hfinal]
    exact Bool.noConfusion
  exact ⟨hagrees, fun hopen => absurd hopen hclosed, fun hopen => absurd hopen hclosed,
    fun hopen => absurd hopen hclosed⟩

theorem Remembers.keep {calls' : List TimedCall} {r' : RoundTracker} (h : Remembers calls r)
    (hagrees : Agrees (untimed calls') r')
    (hkept : r'.roundFinalized = false ->
      r.roundFinalized = false ∧ r'.roundActive = r.roundActive ∧
        r'.statSent = r.statSent ∧ r'.llmFirstTokenMs = r.llmFirstTokenMs)
    (hsame : forall t, Awaits t (timedRound calls') <-> Awaits t (timedRound calls)) :
    Remembers calls' r' := by
  constructor
  · exact hagrees
  · intro hopen hidle
    rcases hkept hopen with ⟨hopen', hactive, hsent, hfirst⟩
    rw [hsent, hfirst]
    exact h.fresh hopen' (hactive.symm.trans hidle)
  · intro hopen t hawaits
    rcases hkept hopen with ⟨hopen', _, hsent, hfirst⟩
    rw [hsent, hfirst]
    exact h.awaiting hopen' t ((hsame t).mp hawaits)
  · intro hopen hnone
    rcases hkept hopen with ⟨hopen', _, hsent, hfirst⟩
    rw [hsent, hfirst]
    exact h.settled hopen' (fun t hawaits => hnone t ((hsame t).mpr hawaits))

theorem remembers_delta {time : Nat} {nowMs : UInt32} (h : Remembers calls r)
    (hstamp : nowMs = stamp time) :
    Remembers (calls ++ [⟨time, .onAssistantDelta nowMs⟩]) (r.onAssistantDelta nowMs).2 := by
  have hround := timedRound_stays calls (c := ⟨time, .onAssistantDelta nowMs⟩) rfl
  have hagrees : Agrees (untimed (calls ++ [⟨time, .onAssistantDelta nowMs⟩]))
      (r.onAssistantDelta nowMs).2 := agrees_step h.agrees ⟨time, .onAssistantDelta nowMs⟩
  cases hfinal : r.roundFinalized with
  | true =>
      have hstep : (r.onAssistantDelta nowMs).2 = r := by
        simp [RoundTracker.onAssistantDelta, hfinal]
      rw [hstep] at hagrees ⊢
      exact Remembers.of_finalized hagrees hfinal
  | false =>
      cases hactive : r.roundActive with
      | false =>
          have hstep : (r.onAssistantDelta nowMs).2 =
              { r with roundActive := true, llmFirstTokenMs := nowMs } := by
            simp [RoundTracker.onAssistantDelta, hfinal, hactive]
          rw [hstep] at hagrees ⊢
          have hnew := not_accepted h.agrees hfinal hactive
          have hfirst : FirstDelta time (timedRound calls) ⟨time, .onAssistantDelta nowMs⟩ := by
            refine ⟨rfl, ?_, hnew, rfl⟩
            rw [untimed_timedRound]
            exact h.agrees.open_iff.mp hfinal
          constructor
          · exact hagrees
          · intro _ hidle
            cases hidle
          · intro _ t hawaits
            rw [hround, awaits_snoc] at hawaits
            rcases hawaits with ⟨_, _, _, htime⟩ | ⟨_, hawaits⟩
            · exact ⟨(h.fresh hfinal hactive).1, htime ▸ hstamp⟩
            · exact absurd hawaits.accepted hnew
          · intro _ hnone
            refine absurd ?_ (hnone time)
            rw [hround, awaits_snoc]
            exact Or.inl hfirst
      | true =>
          have hstep : (r.onAssistantDelta nowMs).2 = r := by
            simp [RoundTracker.onAssistantDelta, hfinal, hactive]
          rw [hstep] at hagrees ⊢
          refine h.keep hagrees (fun hopen => ⟨hopen, rfl, rfl, rfl⟩) (fun t => ?_)
          rw [hround, awaits_snoc]
          constructor
          · rintro (⟨_, _, hnew, _⟩ | ⟨_, hawaits⟩)
            · exact absurd (accepted h.agrees hactive) hnew
            · exact hawaits
          · intro hawaits
            exact Or.inr ⟨rfl, hawaits⟩

theorem remembers_chunk {time : Nat} {nowMs : UInt32} (h : Remembers calls r) :
    Remembers (calls ++ [⟨time, .onAudioChunk nowMs⟩]) (r.onAudioChunk nowMs).2 := by
  have hround := timedRound_stays calls (c := ⟨time, .onAudioChunk nowMs⟩) rfl
  have hagrees : Agrees (untimed (calls ++ [⟨time, .onAudioChunk nowMs⟩]))
      (r.onAudioChunk nowMs).2 := agrees_step h.agrees ⟨time, .onAudioChunk nowMs⟩
  have hnone (t : Nat) :
      ¬Awaits t (timedRound (calls ++ [⟨time, .onAudioChunk nowMs⟩])) := by
    rw [hround, awaits_snoc]
    rintro (⟨hdelta, _⟩ | ⟨hchunk, _⟩)
    · cases hdelta
    · cases hchunk
  cases hfinal : r.roundFinalized with
  | true =>
      have hstep : (r.onAudioChunk nowMs).2 = r := by
        simp [RoundTracker.onAudioChunk, hfinal]
      rw [hstep] at hagrees ⊢
      exact Remembers.of_finalized hagrees hfinal
  | false =>
      by_cases hreport : (!r.statSent && r.llmFirstTokenMs != 0) = true
      · have hstep : (r.onAudioChunk nowMs).2 = { r with statSent := true } := by
          simp [RoundTracker.onAudioChunk, hfinal, hreport]
        rw [hstep] at hagrees ⊢
        refine ⟨hagrees, fun _ hidle => ?_, fun _ t hawaits => absurd hawaits (hnone t),
          fun _ _ => Or.inl rfl⟩
        rw [(h.fresh hfinal hidle).2] at hreport
        simp at hreport
      · have hstep : (r.onAudioChunk nowMs).2 = r := by
          simp [RoundTracker.onAudioChunk, hfinal, hreport]
        rw [hstep] at hagrees ⊢
        refine ⟨hagrees, h.fresh, fun _ t hawaits => absurd hawaits (hnone t), fun _ _ => ?_⟩
        by_cases hsent : r.statSent = true
        · exact Or.inl hsent
        · refine Or.inr ?_
          simp only [Bool.not_eq_true] at hsent
          simpa [hsent] using hreport

theorem remembers_snoc (h : Remembers calls r)
    (hstamp : forall nowMs, c.call.nowMs? = some nowMs -> nowMs = stamp c.time) :
    Remembers (calls ++ [c]) (c.call.run r) := by
  have hagrees := agrees_step h.agrees c
  cases hopens : c.call.opensRound with
  | true =>
      have hround := timedRound_opens calls hopens
      have hnew : (c.call.run r).statSent = false ∧ (c.call.run r).llmFirstTokenMs = 0 := by
        cases hcall : c.call <;> simp_all [TrackerCall.opensRound]
        all_goals exact ⟨rfl, rfl⟩
      refine ⟨hagrees, fun _ _ => hnew, fun _ t hawaits => ?_, fun _ _ => Or.inr hnew.2⟩
      rw [hround] at hawaits
      exact (not_awaits_nil hawaits).elim
  | false =>
      have hround := timedRound_stays calls hopens
      rcases c with ⟨time, call⟩
      cases hclock : call.nowMs? with
      | none =>
          refine h.keep hagrees (run_quiet r hopens hclock) (fun t => ?_)
          rw [hround, awaits_quiet _ hclock]
      | some nowMs =>
          cases call with
          | onAssistantDelta nowMs =>
              exact remembers_delta h (hstamp nowMs rfl)
          | onAudioChunk nowMs => exact remembers_chunk h
          | _ => cases hclock

theorem remembers_nil : Remembers [] RoundTracker.new :=
  ⟨agrees_nil, fun _ _ => ⟨rfl, rfl⟩, fun _ _ hawaits => (not_awaits_nil hawaits).elim,
    fun _ _ => Or.inr rfl⟩

theorem remembers_run (calls : List TimedCall)
    (hstamped : forall c nowMs, c ∈ calls -> c.call.nowMs? = some nowMs ->
      nowMs = stamp c.time) :
    Remembers calls (runTracker (untimed calls)) := by
  induction calls using List.reverseRecOn with
  | nil => exact remembers_nil
  | append_singleton calls c ih =>
      rw [untimed_snoc, runTracker_snoc]
      refine remembers_snoc (ih fun c' nowMs hmem => ?_) (fun nowMs => ?_)
      · exact hstamped c' nowMs (List.mem_append_left _ hmem)
      · exact hstamped c nowMs (List.mem_append_right _ (List.mem_singleton_self c))

end OneMoreTimed

section Reports

variable {calls before after : List TimedCall} {t u : Nat} {nowMs : UInt32}

theorem FirstAudioDue.le (h : FirstAudioDue before t)
    (hpast : forall c, c ∈ before -> c.time ≤ u) : t ≤ u := by
  rcases h.2 with ⟨front, c, rest, hsplit, hdelta, _⟩
  have hround : c ∈ timedRound before := by
    rw [hsplit]
    exact List.mem_append_right _ List.mem_cons_self
  rw [← hdelta.2.2.2]
  exact hpast c ((List.rtakeWhile_suffix _ _).mem hround)

theorem report_none (h : Remembers before (runTracker (untimed before)))
    (hnone : forall t, ¬FirstAudioDue before t) : latencyReport before nowMs = none := by
  unfold latencyReport RoundTracker.onAudioChunk
  cases hfinal : (runTracker (untimed before)).roundFinalized with
  | true => rfl
  | false =>
      have hopen : ¬Finalized (untimed (timedRound before)) := by
        rw [untimed_timedRound]
        exact h.agrees.open_iff.mp hfinal
      have hsettled := h.settled hfinal (fun t hawaits => hnone t ⟨hopen, hawaits⟩)
      rcases hsettled with hsent | hzero
      · simp [hsent]
      · simp [hzero]

theorem report_due (h : Remembers before (runTracker (untimed before)))
    (hdue : FirstAudioDue before t) :
    latencyReport before nowMs =
      if stamp t = 0 then none else some (saturatingSub nowMs (stamp t)) := by
  have hopen : (runTracker (untimed before)).roundFinalized = false := by
    rw [h.agrees.open_iff, ← untimed_timedRound]
    exact hdue.1
  rcases h.awaiting hopen t hdue.2 with ⟨hsent, hfirst⟩
  unfold latencyReport RoundTracker.onAudioChunk
  by_cases hzero : stamp t = 0
  · simp [hopen, hsent, hfirst, hzero]
  · simp [hopen, hsent, hfirst, hzero]

/-- The number of the difference is the time that has gone by just if the stamp has not
wrapped. -/
theorem saturatingSub_eq_iff (h : t ≤ u) :
    (saturatingSub (stamp u) (stamp t)).toNat = (u - t) % 2 ^ 32 <->
      t % 2 ^ 32 ≤ u % 2 ^ 32 := by
  have hle : stamp t ≤ stamp u <-> t % 2 ^ 32 ≤ u % 2 ^ 32 := by
    rw [UInt32.le_iff_toNat_le, toNat_stamp, toNat_stamp]
  unfold saturatingSub
  rw [← hle]
  by_cases hwrap : stamp t ≤ stamp u
  · rw [if_pos hwrap, toNat_stamp_sub h]
    exact ⟨fun _ => hwrap, fun _ => rfl⟩
  · rw [if_neg hwrap]
    rw [hle] at hwrap
    constructor
    · intro hzero
      change 0 = _ at hzero
      omega
    · intro hfalse
      exact absurd (hle.mp hfalse) hwrap

def Subtracts (t u : Nat) : Prop :=
  t % 2 ^ 32 ≠ 0 ∧ t % 2 ^ 32 ≤ u % 2 ^ 32

theorem reportedRight_iff (h : Remembers before (runTracker (untimed before)))
    (hpast : forall c, c ∈ before -> c.time ≤ u) :
    ReportedRight before u (latencyReport before (stamp u)) <->
      forall t, FirstAudioDue before t -> Subtracts t u := by
  constructor
  · rintro ⟨hright, _⟩ t hdue
    rcases hright t hdue with ⟨latency, hreport, hvalue⟩
    rw [report_due h hdue] at hreport
    by_cases hzero : stamp t = 0
    · rw [if_pos hzero] at hreport
      cases hreport
    · rw [if_neg hzero, Option.some.injEq] at hreport
      rw [← hreport, saturatingSub_eq_iff (hdue.le hpast)] at hvalue
      rw [stamp_eq_zero] at hzero
      exact ⟨hzero, hvalue⟩
  · intro hsubtracts
    refine ⟨fun t hdue => ?_, report_none h⟩
    rcases hsubtracts t hdue with ⟨hzero, hle⟩
    refine ⟨saturatingSub (stamp u) (stamp t), ?_, (saturatingSub_eq_iff (hdue.le hpast)).mpr hle⟩
    rw [report_due h hdue, if_neg]
    rw [stamp_eq_zero]
    exact hzero

theorem not_awaits_later {round : List TimedCall} (haccepted : HasAcceptedDelta (untimed round))
    (hnone : forall t, ¬Awaits t round) (later : List TimedCall) :
    HasAcceptedDelta (untimed (round ++ later)) ∧ forall t, ¬Awaits t (round ++ later) := by
  induction later using List.reverseRecOn with
  | nil =>
      rw [List.append_nil]
      exact ⟨haccepted, hnone⟩
  | append_singleton later c ih =>
      rw [← List.append_assoc]
      refine ⟨?_, fun t => ?_⟩
      · rw [untimed_snoc, hasAcceptedDelta_snoc]
        exact Or.inr ih.1
      · rw [awaits_snoc]
        rintro (⟨_, _, hnew, _⟩ | ⟨_, hawaits⟩)
        · exact hnew ih.1
        · exact ih.2 t hawaits

theorem FirstAudioDue.once {later : List TimedCall} (hdue : FirstAudioDue before t)
    (hlater : timedRound (before ++ ⟨u, .onAudioChunk nowMs⟩ :: later) =
      timedRound before ++ ⟨u, .onAudioChunk nowMs⟩ :: later) (t' : Nat) :
    ¬FirstAudioDue (before ++ ⟨u, .onAudioChunk nowMs⟩ :: later) t' := by
  have haccepted := hdue.2.accepted
  rintro ⟨_, hawaits⟩
  rw [hlater, List.append_cons] at hawaits
  refine (not_awaits_later ?_ (fun s => ?_) later).2 t' hawaits
  · rw [untimed_snoc, hasAcceptedDelta_snoc]
    exact Or.inr haccepted
  · rw [awaits_snoc]
    rintro (⟨hdelta, _⟩ | ⟨hchunk, _⟩)
    · cases hdelta
    · cases hchunk

theorem OnClock.before_chunk (hclock : OnClock calls)
    (hsplit : calls = before ++ ⟨u, .onAudioChunk nowMs⟩ :: after) :
    nowMs = stamp u ∧ (forall c, c ∈ before -> c.time ≤ u) ∧
      Remembers before (runTracker (untimed before)) := by
  subst hsplit
  have hsorted := (List.pairwise_append.mp hclock.sorted).2.2
  refine ⟨?_, fun c hc => ?_, remembers_run before fun c nowMs hc => ?_⟩
  · exact hclock.stamped ⟨u, .onAudioChunk nowMs⟩ nowMs
      (List.mem_append_right _ List.mem_cons_self) rfl
  · exact hsorted c hc _ List.mem_cons_self
  · exact hclock.stamped c nowMs (List.mem_append_left _ hc)

/-- In a run on a clock, the latency is reported right just if at every chunk that is to
be reported the stamp of the first delta can be subtracted from the one of the chunk. -/
theorem reports_latency_iff (hclock : OnClock calls) :
    ReportsLatency calls <->
      forall before u nowMs after t,
        calls = before ++ ⟨u, .onAudioChunk nowMs⟩ :: after ->
          FirstAudioDue before t -> Subtracts t u := by
  constructor
  · intro hreports before u nowMs after t hsplit hdue
    rcases hclock.before_chunk hsplit with ⟨hnow, hpast, hremembers⟩
    have hright := hreports before u nowMs after hsplit
    rw [hnow] at hright
    exact (reportedRight_iff hremembers hpast).mp hright t hdue
  · intro hsubtracts before u nowMs after hsplit
    rcases hclock.before_chunk hsplit with ⟨hnow, hpast, hremembers⟩
    rw [hnow]
    exact (reportedRight_iff hremembers hpast).mpr
      (fun t hdue => hsubtracts before u nowMs after t hsplit hdue)

end Reports

/-! ## A reply -/

def replyStart (first : Nat) : List TimedCall :=
  [⟨first, .onAsrResult⟩, ⟨first, .onAssistantDelta (stamp first)⟩]

def reply (first later : Nat) : List TimedCall :=
  replyStart first ++ [⟨later, .onAudioChunk (stamp later)⟩]

section Reply

variable {first later t : Nat}

theorem reply_onClock (h : first ≤ later) : OnClock (reply first later) := by
  constructor
  · simp [reply, replyStart, h]
  · intro c nowMs hc hclock
    simp only [reply, replyStart, List.cons_append, List.nil_append, List.mem_cons,
      List.not_mem_nil, or_false] at hc
    rcases hc with rfl | rfl | rfl
    · cases hclock
    · cases hclock
      rfl
    · cases hclock
      rfl

theorem replyStart_due (first t : Nat) :
    FirstAudioDue (replyStart first) t <-> t = first := by
  have hround : timedRound (replyStart first) =
      [] ++ [⟨first, .onAssistantDelta (stamp first)⟩] := rfl
  have hopen : ¬Finalized [.onAssistantDelta (stamp first)] := by
    simp [Finalized]
  unfold FirstAudioDue
  rw [hround, awaits_snoc]
  constructor
  · rintro ⟨_, ⟨_, _, _, htime⟩ | ⟨_, hnil⟩⟩
    · exact htime.symm
    · exact (not_awaits_nil hnil).elim
  · rintro rfl
    refine ⟨hopen, Or.inl ⟨rfl, ?_, happened_nil, rfl⟩⟩
    simp [Finalized, untimed]

theorem reply_split {before after : List TimedCall} {u : Nat} {nowMs : UInt32}
    (h : reply first later = before ++ ⟨u, .onAudioChunk nowMs⟩ :: after) :
    before = replyStart first ∧ u = later := by
  rcases before with _ | ⟨a, _ | ⟨b, _ | ⟨c, rest⟩⟩⟩
  · cases h
  · cases h
  · cases h
    exact ⟨rfl, rfl⟩
  · have hlen := congrArg List.length h
    simp [reply, replyStart] at hlen

theorem reply_not_reported (h : first ≤ later) (hwraps : ¬Subtracts first later) :
    ¬ReportsLatency (reply first later) := by
  intro hreports
  rcases (reply_onClock h).before_chunk rfl with ⟨_, hpast, hremembers⟩
  have hright := hreports (replyStart first) later (stamp later) [] rfl
  rw [reportedRight_iff hremembers hpast] at hright
  exact hwraps (hright first ((replyStart_due first first).mpr rfl))

end Reply

/-- The clock wraps between text and audio, and 0 is reported for 32; the text comes at
stamp 0, and nothing is reported. -/
theorem latency_lost :
    (OnClock (reply 4294967295 4294967327) ∧
      latencyReport (replyStart 4294967295) (stamp 4294967327) = some 0 ∧
      ¬ReportsLatency (reply 4294967295 4294967327)) ∧
    OnClock (reply 4294967296 4294967396) ∧
      latencyReport (replyStart 4294967296) (stamp 4294967396) = none ∧
      ¬ReportsLatency (reply 4294967296 4294967396) := by
  have hwrap : ¬Subtracts 4294967295 4294967327 := by
    unfold Subtracts
    omega
  have hzero : ¬Subtracts 4294967296 4294967396 := by
    unfold Subtracts
    omega
  exact ⟨⟨reply_onClock (by decide), by decide, reply_not_reported (by decide) hwrap⟩,
    reply_onClock (by decide), by decide, reply_not_reported (by decide) hzero⟩

/-- Audio 30 ms after the text. -/
theorem reports_latency_iff_reply : ReportsLatency (reply 1200 1230) := by
  rw [reports_latency_iff (reply_onClock (by decide))]
  intro before u nowMs after t hsplit hdue
  rcases reply_split hsplit with ⟨rfl, rfl⟩
  rw [replyStart_due] at hdue
  rw [hdue]
  unfold Subtracts
  omega

end VoiceClient
end TWA
