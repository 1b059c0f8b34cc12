import TWA.AudioOutput.Termination

/-!
# Starts that fail

A start first moves audio from the ring into the stream buffer and then tries to
start the peripheral.  When that fails the handles are put back, but the audio is
gone: the next start resets the buffer.
-/

namespace TWA

open Foundation
open Foundation.Exec

namespace AudioOutput

/-- The pump step gets as far as starting the peripheral, and that fails. -/
structure StartFails (inp : TickInput) (a : AudioOutput) : Prop where
  restarts : Restarts inp a
  streaming : a.streaming = true
  ready : Ready a
  tx : (reclaim a).tx ≠ none
  stream : (reclaim a).stream ≠ none
  failed : inp.startOk = false

/-- Nothing is lost: the unread bytes and the handles are what they were, and a fill
that starts from here queues what it would have queued before. -/
structure LosesNothing (rnd : Rat -> Rat) (a a' : AudioOutput) : Prop where
  contents_eq : a'.contents = a.contents
  tx_eq : a'.tx = (reclaim a).tx
  stream_eq : a'.stream = (reclaim a).stream
  resumes : forall outLen, (fillSlice rnd outLen a').map Prod.fst =
    (fillSlice rnd outLen a).map Prod.fst

section Failing

variable {rnd : Rat -> Rat} {inp : TickInput} {a a' : AudioOutput}

theorem launching_inRange (h : InRange a) :
    InRange { reclaim a with started := true, tx := none, stream := none } :=
  ⟨h.reclaim.head_lt, h.reclaim.tail_lt⟩

theorem fillSlice_congr (hring : a'.ring = a.ring) (hhead : a'.head = a.head)
    (htail : a'.tail = a.tail) (hvolume : a'.volume = a.volume) (outLen : Nat) :
    (fillSlice rnd outLen a').map Prod.fst = (fillSlice rnd outLen a).map Prod.fst := by
  unfold fillSlice
  rw [hring, hhead, htail, hvolume]
  cases fillFromRing rnd a.ring a.head a.tail a.volume outLen with
  | error e => rfl
  | ok r => rfl

theorem StartFails.tick_eq (h : StartFails inp a)
    {r : Bool × Option Pushed × AudioOutput} (htick : tick rnd inp a = .ok r) :
    exists p b, fillSlice rnd inp.prefillSlice
        { reclaim a with started := true, tx := none, stream := none } = .ok (p, b) ∧
      r = (false, none, { b with tx := (reclaim a).tx, stream := (reclaim a).stream }) := by
  have hends (hdone : a.drained = .ok true) (hsome : a.xfer ≠ none) : False := by
    rcases h.restarts with ⟨hnone, _⟩ | ⟨_, _, hdrained⟩
    · exact hsome hnone
    · rw [hdone] at hdrained
      cases hdrained
  have hruns (hrun : inp.isDone = false) (hsome : a.xfer ≠ none) : False := by
    rcases h.restarts with ⟨hnone, _⟩ | ⟨_, hdone, _⟩
    · exact hsome hnone
    · rw [hrun] at hdone
      cases hdone
  cases tick_cases htick with
  | silent hring hxfer =>
      rcases h.restarts with ⟨_, hsome⟩ | ⟨hsome, _⟩
      · exact absurd hring hsome
      · exact absurd hxfer hsome
  | finished hxfer _ hdrained => exact (hends hdrained hxfer).elim
  | refilled hxfer hrun _ _ _ _ _ _ => exact (hruns hrun hxfer).elim
  | running hxfer hrun _ => exact (hruns hrun hxfer).elim
  | stopped _ hstream =>
      have hcontra := h.streaming
      rw [hstream] at hcontra
      cases hcontra
  | waiting _ _ hready => exact absurd h.ready hready
  | noHandles _ _ _ hmissing => exact (hmissing.elim h.tx h.stream).elim
  | launched _ _ _ _ _ _ _ _ _ _ hstart =>
      have hcontra := h.failed
      rw [hstart] at hcontra
      cases hcontra
  | startFailed _ _ _ tx stream htx hbuf p b hfill _ =>
      refine ⟨p, b, hfill, ?_⟩
      rw [htx, hbuf]

theorem fillSlice_tail (hrange : a.ring ≠ [] -> InRange a) {outLen : Nat} {p : Pushed}
    (hfill : fillSlice rnd outLen a = .ok (p, a')) :
    exists taken, a.contents = taken.flatMap bytesOf ++ a'.contents ∧
      taken.length = min (a.contents.length / 2) (outLen / sampleBytes) ∧
      (taken = [] -> a'.tail = a.tail) := by
  by_cases hring : a.ring = []
  · have hempty : a.contents = [] := by
      unfold contents
      rw [hring]
      simp [Ring.contents]
    have hsame : a' = a := by
      rcases bind_eq_ok.mp hfill with ⟨⟨tail, out⟩, hread, hend⟩
      unfold fillFromRing at hread
      rw [if_pos hring] at hread
      cases hread
      cases hend
      rfl
    rw [hsame]
    exact ⟨[], rfl, by simp [hempty], fun _ => rfl⟩
  · have hin := hrange hring
    rcases fillSlice_eq rnd hin outLen with ⟨taken, b, heq, hlen, htakes⟩
    rw [heq, Except.ok.injEq, Prod.mk.injEq] at hfill
    rw [hfill.2] at htakes
    refine ⟨taken, htakes.contents_eq, hlen, fun hnone => ?_⟩
    have hlater := htakes.inRange.tail_lt
    rw [htakes.drains.ring_eq] at hlater
    have hcount : Ring.count a.ring.length a.head a'.tail =
        Ring.count a.ring.length a.head a.tail := by
      have hleft := htakes.inRange.length_contents
      rw [htakes.drains.ring_eq, htakes.drains.head_eq] at hleft
      rw [← hleft, ← hin.length_contents, htakes.contents_eq, hnone]
      rfl
    have hwhere := Ring.tail_eq_add hin.head_lt hin.tail_lt hlater hcount.le
    rw [hcount, Nat.sub_self, Nat.add_zero, Nat.mod_eq_of_lt hin.tail_lt] at hwhere
    exact hwhere

end Failing

/-- A failed start loses nothing exactly if there is no whole sample to move, or no room
for one. -/
theorem failed_start_loses_nothing_iff {rnd : Rat -> Rat} {inp : TickInput}
    {a a' : AudioOutput} {started : Bool} {handed : Option Pushed}
    (hrange : a.ring ≠ [] -> InRange a) (hfails : StartFails inp a)
    (htick : tick rnd inp a = .ok (started, handed, a')) :
    LosesNothing rnd a a' <->
      a.contents.length < 2 ∨ inp.prefillSlice < sampleBytes := by
  rcases hfails.tick_eq htick with ⟨p, b, hfill, hr⟩
  rw [Prod.mk.injEq, Prod.mk.injEq] at hr
  rcases fillSlice_tail (fun hring => launching_inRange (hrange (by simpa using hring)))
    hfill with ⟨taken, hsplit, hlen, htail⟩
  have hframe := fillSlice_frame hfill
  have hcontents : contents
      { reclaim a with started := true, tx := none, stream := none } = a.contents :=
    reclaim_contents a
  have hsame : a'.contents = b.contents := by rw [hr.2.2]; rfl
  rw [hcontents, ← hsame] at hsplit
  rw [hcontents] at hlen
  have hfour : 0 < sampleBytes := by decide
  constructor
  · intro hkeeps
    have hnone : (taken.flatMap bytesOf).length = 0 := by
      have hall := congrArg List.length hsplit
      rw [hkeeps.contents_eq, List.length_append] at hall
      omega
    rw [length_flatMap_bytesOf, hlen] at hnone
    have hzero : a.contents.length / 2 = 0 ∨ inp.prefillSlice / sampleBytes = 0 := by
      omega
    rcases hzero with hzero | hzero
    · exact Or.inl (by omega)
    · exact Or.inr ((Nat.div_eq_zero_iff_lt hfour).mp hzero)
  · intro hnothing
    have hzero : taken = [] := by
      apply List.length_eq_zero_iff.mp
      rcases hnothing with hfew | hroom
      · omega
      · rw [Nat.div_eq_of_lt hroom, Nat.min_zero] at hlen
        exact hlen
    have hkept : b.tail = a.tail := by simpa using htail hzero
    rw [hzero] at hsplit
    refine ⟨hsplit.symm, ?_, ?_, ?_⟩
    · rw [hr.2.2]
    · rw [hr.2.2]
    · apply fillSlice_congr
      · rw [hr.2.2, hframe]
        simp
      · rw [hr.2.2, hframe]
        simp
      · rw [hr.2.2]
        exact hkept
      · rw [hr.2.2, hframe]
        simp

/-- One byte in a finished stream: it is still there when the first start has failed. -/
theorem failed_start_loses_nothing_iff_byte :
    exists a a', Reachable Fresh (OpStep F32.round) a ∧
      tick F32.round ⟨false, 0, 0, 16384, false⟩ a = .ok (false, none, a') ∧
      a.contents = [7] ∧ LosesNothing F32.round a a' := by
  rcases reachable_finished [7] (by decide) (by decide) with
    ⟨a, hreach, hstream, hdone, hxfer, hcontents, hring⟩
  have hkept := reachable_kept F32.rounding_round hreach
  have hback := reclaim_handles hkept.handles
  have hfails : StartFails ⟨false, 0, 0, 16384, false⟩ a :=
    ⟨Or.inl ⟨hxfer, hring⟩, hstream, Or.inr (Or.inl hdone), hback.1, hback.2, rfl⟩
  have hrange := (hkept.sound hring).toInRange
  rcases tick_ok F32.round ⟨false, 0, 0, 16384, false⟩ hrange with ⟨r, htick⟩
  rcases hfails.tick_eq htick with ⟨p, b, _, rfl⟩
  refine ⟨a, _, hreach, htick, hcontents, ?_⟩
  refine (failed_start_loses_nothing_iff (fun _ => hrange) hfails htick).mpr (Or.inl ?_)
  rw [hcontents]
  decide

/-- Two samples in a finished stream; the first start fails, and both are gone. -/
theorem failed_start_loses_audio :
    exists a a', Reachable Fresh (OpStep F32.round) a ∧
      StartFails ⟨false, 0, 0, 16384, false⟩ a ∧
      tick F32.round ⟨false, 0, 0, 16384, false⟩ a = .ok (false, none, a') ∧
      a.contents = [1, 2, 3, 4] ∧ a'.contents = [] ∧
      ¬ LosesNothing F32.round a a' := by
  rcases reachable_finished [1, 2, 3, 4] (by decide) (by decide) with
    ⟨a, hreach, hstream, hdone, hxfer, hcontents, hring⟩
  have hkept := reachable_kept F32.rounding_round hreach
  have hback := reclaim_handles hkept.handles
  have hfails : StartFails ⟨false, 0, 0, 16384, false⟩ a :=
    ⟨Or.inl ⟨hxfer, hring⟩, hstream, Or.inr (Or.inl hdone), hback.1, hback.2, rfl⟩
  have hrange := (hkept.sound hring).toInRange
  rcases tick_ok F32.round ⟨false, 0, 0, 16384, false⟩ hrange with ⟨r, htick⟩
  rcases hfails.tick_eq htick with ⟨p, b, hfill, rfl⟩
  rcases fillSlice_tail (fun _ => launching_inRange hrange) hfill with ⟨taken, hsplit, hlen, _⟩
  have hsame : contents
      { reclaim a with started := true, tx := none, stream := none } = [1, 2, 3, 4] :=
    (reclaim_contents a).trans hcontents
  rw [hsame] at hsplit hlen
  have hempty : b.contents = [] := by
    apply List.length_eq_zero_iff.mp
    have hall := congrArg List.length hsplit
    rw [List.length_append, length_flatMap_bytesOf, hlen] at hall
    simpa [sampleBytes] using hall
  refine ⟨a, _, hreach, hfails, htick, hcontents, hempty, fun hclaim => ?_⟩
  have hkeeps := hclaim.contents_eq
  rw [hcontents] at hkeeps
  exact absurd (hempty.symm.trans hkeeps) (by decide)

end AudioOutput
end TWA
