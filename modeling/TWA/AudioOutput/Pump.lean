import TWA.AudioOutput.Ring

/-!
# What one pump step can do

`tick` starts, refills, restarts or ends a transfer.  The cases are listed once,
with everything the step tests and changes; later results split on them instead
of on the branches of the code.
-/

namespace TWA

open Foundation
open Foundation.Exec

namespace AudioOutput

/-! ## Reclaiming -/

section Reclaim

variable (a : AudioOutput)

@[simp] theorem reclaim_ring : (reclaim a).ring = a.ring := by
  unfold reclaim
  split <;> rfl

@[simp] theorem reclaim_head : (reclaim a).head = a.head := by
  unfold reclaim
  split <;> rfl

@[simp] theorem reclaim_tail : (reclaim a).tail = a.tail := by
  unfold reclaim
  split <;> rfl

@[simp] theorem reclaim_streaming : (reclaim a).streaming = a.streaming := by
  unfold reclaim
  split <;> rfl

@[simp] theorem reclaim_started : (reclaim a).started = a.started := by
  unfold reclaim
  split <;> rfl

@[simp] theorem reclaim_doneFlag : (reclaim a).doneFlag = a.doneFlag := by
  unfold reclaim
  split <;> rfl

@[simp] theorem reclaim_inRate : (reclaim a).inRate = a.inRate := by
  unfold reclaim
  split <;> rfl

@[simp] theorem reclaim_volume : (reclaim a).volume = a.volume := by
  unfold reclaim
  split <;> rfl

@[simp] theorem reclaim_rFrac : (reclaim a).rFrac = a.rFrac := by
  unfold reclaim
  split <;> rfl

@[simp] theorem reclaim_rPrev : (reclaim a).rPrev = a.rPrev := by
  unfold reclaim
  split <;> rfl

@[simp] theorem reclaim_xfer : (reclaim a).xfer = none := by
  unfold reclaim
  split
  · rfl
  · assumption

@[simp] theorem reclaim_contents : (reclaim a).contents = a.contents := by
  simp [contents]

@[simp] theorem reclaim_buffered : (reclaim a).buffered = a.buffered := by
  simp [buffered, cap]

end Reclaim

theorem reclaim_of_none {a : AudioOutput} (h : a.xfer = none) :
    reclaim a = a := by
  unfold reclaim
  rw [h]

theorem reclaim_of_some {a : AudioOutput} {tr : I2sTxDmaTransfer}
    (h : a.xfer = some tr) :
    reclaim a = { a with xfer := none, tx := some tr.tx, stream := some tr.stream } := by
  unfold reclaim
  rw [h]

theorem InRange.reclaim {a : AudioOutput} (h : InRange a) :
    InRange (reclaim a) :=
  ⟨by simpa using h.head_lt, by simpa using h.tail_lt⟩

/-! ## The cases of a pump step -/

section Cases

variable {rnd : Rat -> Rat} {inp : TickInput} {a : AudioOutput}

def Restarts (inp : TickInput) (a : AudioOutput) : Prop :=
  (a.xfer = none ∧ a.ring ≠ []) ∨
    (a.xfer ≠ none ∧ inp.isDone = true ∧ a.drained = .ok false)

def Ready (a : AudioOutput) : Prop :=
  a.started = true ∨ a.doneFlag = true ∨
    exists n, a.buffered = .ok n ∧ Config.playWatermarkBytes ≤ n

inductive TickCase (rnd : Rat -> Rat) (inp : TickInput) (a : AudioOutput) :
    Bool × Option Pushed × AudioOutput -> Prop where
  /-- No ring and no transfer: nothing to do. -/
  | silent (hring : a.ring = []) (hxfer : a.xfer = none) :
      TickCase rnd inp a (false, none, a)
  /-- The transfer has run out, the server is done and the ring is empty. -/
  | finished (hxfer : a.xfer ≠ none) (hdone : inp.isDone = true)
      (hdrained : a.drained = .ok true) :
      TickCase rnd inp a
        (false, none, { reclaim a with started := false, streaming := false })
  /-- The transfer in flight takes more data. -/
  | refilled (hxfer : a.xfer ≠ none) (hrun : inp.isDone = false)
      (hdrained : a.drained = .ok false) (hstream : a.streaming = true)
      (hroom : 0 < inp.availableBytes) (p : Pushed) (a' : AudioOutput)
      (hfill : fillSlice rnd inp.pushSlice a = .ok (p, a')) :
      TickCase rnd inp a (false, some p, a')
  /-- The transfer in flight is left alone. -/
  | running (hxfer : a.xfer ≠ none) (hrun : inp.isDone = false)
      (hidle : a.drained = .ok true ∨ a.streaming = false ∨
        inp.availableBytes = 0) :
      TickCase rnd inp a (false, none, a)
  | stopped (hrestart : Restarts inp a) (hstream : a.streaming = false) :
      TickCase rnd inp a (false, none, reclaim a)
  /-- Streaming, but below the watermark. -/
  | waiting (hrestart : Restarts inp a) (hstream : a.streaming = true)
      (hready : ¬ Ready a) :
      TickCase rnd inp a (false, none, reclaim a)
  /-- Ready, but a handle is missing. -/
  | noHandles (hrestart : Restarts inp a) (hstream : a.streaming = true)
      (hready : Ready a)
      (hmissing : (reclaim a).tx = none ∨ (reclaim a).stream = none) :
      TickCase rnd inp a (false, none, { reclaim a with started := true })
  /-- Prefilled and started. -/
  | launched (hrestart : Restarts inp a) (hstream : a.streaming = true)
      (hready : Ready a) (tx : I2sTx) (stream : DmaTxStreamBuf)
      (htx : (reclaim a).tx = some tx)
      (hbuf : (reclaim a).stream = some stream) (p : Pushed)
      (a' : AudioOutput)
      (hfill : fillSlice rnd inp.prefillSlice
        { reclaim a with started := true, tx := none, stream := none } =
          .ok (p, a'))
      (hstart : inp.startOk = true) :
      TickCase rnd inp a
        (true, some p, { a' with xfer := some ⟨tx, stream⟩ })
  /-- Prefilled, but the start failed. -/
  | startFailed (hrestart : Restarts inp a) (hstream : a.streaming = true)
      (hready : Ready a) (tx : I2sTx) (stream : DmaTxStreamBuf)
      (htx : (reclaim a).tx = some tx)
      (hbuf : (reclaim a).stream = some stream) (p : Pushed)
      (a' : AudioOutput)
      (hfill : fillSlice rnd inp.prefillSlice
        { reclaim a with started := true, tx := none, stream := none } =
          .ok (p, a'))
      (hstart : inp.startOk = false) :
      TickCase rnd inp a
        (false, none, { a' with tx := some tx, stream := some stream })

theorem startTransfer_cases {r : Bool × Option Pushed × AudioOutput}
    {b : AudioOutput} (hb : b = { reclaim a with started := true })
    (hrestart : Restarts inp a) (hstream : a.streaming = true)
    (hready : Ready a) (h : startTransfer rnd inp b = .ok r) :
    TickCase rnd inp a r := by
  unfold startTransfer at h
  cases htx : b.tx with
  | none =>
      rw [htx] at h
      cases h
      subst hb
      exact TickCase.noHandles hrestart hstream hready (Or.inl htx)
  | some tx =>
      rw [htx] at h
      cases hbuf : b.stream with
      | none =>
          rw [hbuf] at h
          cases h
          subst hb
          exact TickCase.noHandles hrestart hstream hready (Or.inr hbuf)
      | some stream =>
          rw [hbuf] at h
          rcases bind_eq_ok.mp h with ⟨⟨p, a'⟩, hfill, hend⟩
          subst hb
          cases hstart : inp.startOk with
          | true =>
              simp only [hstart] at hend
              cases hend
              exact TickCase.launched hrestart hstream hready tx stream htx
                hbuf p a' hfill hstart
          | false =>
              simp only [hstart] at hend
              cases hend
              exact TickCase.startFailed hrestart hstream hready tx stream htx
                hbuf p a' hfill hstart

theorem watermark_true (h : a.watermark = .ok true) : Ready a := by
  unfold watermark at h
  by_cases hdone : a.doneFlag = true
  · exact Or.inr (Or.inl hdone)
  · rw [if_neg hdone] at h
    rcases bind_eq_ok.mp h with ⟨n, hn, hlevel⟩
    rw [pure_eq_ok, Except.ok.injEq, decide_eq_true_eq] at hlevel
    exact Or.inr (Or.inr ⟨n, hn, hlevel⟩)

theorem watermark_false (h : a.watermark = .ok false)
    (hstarted : a.started = false) : ¬ Ready a := by
  unfold watermark at h
  intro hcases
  rcases hcases with hcontra | hcontra | ⟨n, hn, hge⟩
  · rw [hstarted] at hcontra
    cases hcontra
  · rw [if_pos hcontra] at h
    cases h
  · by_cases hdone : a.doneFlag = true
    · rw [if_pos hdone] at h
      cases h
    · rw [if_neg hdone, hn, ok_bind, pure_eq_ok, Except.ok.injEq,
        decide_eq_false_iff_not] at h
      exact h hge

theorem ready_reclaim : Ready (reclaim a) <-> Ready a := by
  simp [Ready]

theorem startWhenReady_cases {r : Bool × Option Pushed × AudioOutput}
    {b : AudioOutput} (hb : b = reclaim a) (hrestart : Restarts inp a)
    (h : startWhenReady rnd inp b = .ok r) :
    TickCase rnd inp a r := by
  unfold startWhenReady at h
  have hstreaming : b.streaming = a.streaming := by rw [hb, reclaim_streaming]
  have hiff : Ready b <-> Ready a := by rw [hb, ready_reclaim]
  by_cases hstream : b.streaming = true
  · rw [if_neg (by simp [hstream])] at h
    rw [hstreaming] at hstream
    by_cases hstarted : b.started = true
    · rw [if_pos hstarted] at h
      exact startTransfer_cases (by rw [← hb, ← hstarted]) hrestart hstream
        (hiff.mp (Or.inl hstarted)) h
    · rw [if_neg hstarted] at h
      rcases bind_eq_ok.mp h with ⟨ready, hready, hend⟩
      cases ready with
      | true =>
          exact startTransfer_cases (by rw [hb]) hrestart hstream
            (hiff.mp (watermark_true hready)) hend
      | false =>
          cases hend
          rw [hb]
          exact TickCase.waiting hrestart hstream fun hcontra =>
            watermark_false hready (by simpa using hstarted)
              (hiff.mpr hcontra)
  · rw [if_pos (by simpa using hstream)] at h
    cases h
    rw [hb]
    exact TickCase.stopped hrestart
      (by rw [← hstreaming]; simpa using hstream)

theorem drained_reclaim : (reclaim a).drained = a.drained := by
  unfold drained
  simp

theorem fillSlice_frame {outLen : Nat} {p : Pushed}
    (h : fillSlice rnd outLen a = .ok (p, a')) :
    a' = { a with tail := a'.tail } := by
  rcases bind_eq_ok.mp h with ⟨⟨tail, out⟩, _, hend⟩
  cases hend
  rfl

theorem tick_cases {r : Bool × Option Pushed × AudioOutput}
    (h : tick rnd inp a = .ok r) : TickCase rnd inp a r := by
  unfold tick at h
  by_cases hsilent : a.ring = [] ∧ a.xfer = none
  · rw [if_pos hsilent] at h
    cases h
    exact TickCase.silent hsilent.1 hsilent.2
  · rw [if_neg hsilent] at h
    cases hxfer : a.xfer with
    | none =>
        rw [hxfer] at h
        exact startWhenReady_cases (reclaim_of_none hxfer).symm
          (Or.inl ⟨hxfer, fun hring => hsilent ⟨hring, hxfer⟩⟩) h
    | some tr =>
        have hsome : a.xfer ≠ none := by
          rw [hxfer]
          exact Option.some_ne_none tr
        rw [hxfer] at h
        simp only at h
        cases hdone : inp.isDone with
        | true =>
            rw [if_pos hdone] at h
            have hback := reclaim_of_some hxfer
            rw [← hback] at h
            rcases bind_eq_ok.mp h with ⟨finished, hdrained, hend⟩
            rw [drained_reclaim] at hdrained
            cases finished with
            | true =>
                have hcase : TickCase rnd inp a _ :=
                  TickCase.finished hsome hdone hdrained
                rw [hback] at hcase
                cases hend
                exact hcase
            | false =>
                exact startWhenReady_cases rfl
                  (Or.inr ⟨hsome, hdone, hdrained⟩) hend
        | false =>
            simp only [hdone, Bool.false_eq_true, if_false] at h
            rcases bind_eq_ok.mp h with ⟨finished, hdrained, hend⟩
            by_cases hkeep :
                (a.streaming && !finished &&
                  decide (inp.availableBytes > 0)) = true
            · rw [if_pos hkeep] at hend
              rcases bind_eq_ok.mp hend with ⟨⟨p, a'⟩, hfill, hpush⟩
              cases hpush
              simp only [Bool.and_eq_true, Bool.not_eq_true',
                decide_eq_true_eq] at hkeep
              rw [hkeep.1.2] at hdrained
              exact TickCase.refilled hsome hdone hdrained hkeep.1.1 hkeep.2 p
                a' hfill
            · rw [if_neg hkeep] at hend
              cases hend
              refine TickCase.running hsome hdone ?_
              cases finished with
              | true => exact Or.inl hdrained
              | false =>
                  cases hstream : a.streaming with
                  | false => exact Or.inr (Or.inl rfl)
                  | true =>
                      rw [hstream] at hkeep
                      exact Or.inr (Or.inr (by simpa using hkeep))

/-! ## Pump steps do not fault -/

theorem InRange.drained_eq (h : InRange a) :
    a.drained = .ok (a.streaming && a.doneFlag && decide (a.contents = [])) := by
  unfold drained
  rw [h.buffered_eq]
  cases a.streaming <;> cases a.doneFlag <;> simp

theorem InRange.watermark_ok (h : InRange a) :
    exists ready, a.watermark = .ok ready := by
  unfold watermark
  rw [h.buffered_eq]
  split
  · exact ⟨_, rfl⟩
  · exact ⟨_, rfl⟩

theorem startTransfer_ok (h : InRange a) :
    exists r, startTransfer rnd inp a = .ok r := by
  unfold startTransfer
  split
  · exact ⟨_, rfl⟩
  · split
    · exact ⟨_, rfl⟩
    · rename_i tx _ stream _
      have hfree : InRange { a with tx := none, stream := none } :=
        ⟨h.head_lt, h.tail_lt⟩
      rcases fillSlice_eq rnd hfree inp.prefillSlice with
        ⟨taken, a', hfill, _, _⟩
      simp only [hfill, ok_bind]
      split
      · exact ⟨_, rfl⟩
      · exact ⟨_, rfl⟩

theorem startWhenReady_ok (h : InRange a) :
    exists r, startWhenReady rnd inp a = .ok r := by
  unfold startWhenReady
  split
  · exact ⟨_, rfl⟩
  · split
    · exact startTransfer_ok h
    · rcases h.watermark_ok with ⟨ready, hready⟩
      rw [hready, ok_bind]
      cases ready with
      | true => exact startTransfer_ok ⟨h.head_lt, h.tail_lt⟩
      | false => exact ⟨_, rfl⟩

theorem tick_ok (rnd : Rat -> Rat) (inp : TickInput) (h : InRange a) :
    exists r, tick rnd inp a = .ok r := by
  unfold tick
  split
  · exact ⟨_, rfl⟩
  · split
    · rename_i tr hxfer
      have hback := reclaim_of_some hxfer
      split
      · rw [← hback]
        simp only [h.reclaim.drained_eq, ok_bind]
        split
        · exact ⟨_, rfl⟩
        · exact startWhenReady_ok h.reclaim
      · rw [h.drained_eq, ok_bind]
        split
        · rcases fillSlice_eq rnd h inp.pushSlice with ⟨taken, a', hfill, _, _⟩
          rw [hfill, ok_bind]
          exact ⟨_, rfl⟩
        · exact ⟨_, rfl⟩
    · exact startWhenReady_ok h

end Cases

end AudioOutput
end TWA
