import TWA.AudioOutput.Pump

/-!
# When the output is active

A stream is opened by `beginStream`, closed by `finishStream` and ends in a tick
that finds it drained, or with `stopPlayback`.  No other call touches its flags.
-/

namespace TWA

open Foundation
open Foundation.Exec

namespace AudioOutput

variable {rnd : Rat -> Rat} {a a' b : AudioOutput}

def IsOpen (a : AudioOutput) : Prop :=
  a.streaming = true ∧ a.doneFlag = false

/-- The tick in which playback ends: the transfer has run out and the stream is done
and drained. -/
def Finishes (inp : TickInput) (a : AudioOutput) : Prop :=
  a.xfer ≠ none ∧ inp.isDone = true ∧ a.drained = .ok true

/-- The flags of the stream are kept, and nothing is taken or stored while there is no
stream. -/
structure KeepsStream (a a' : AudioOutput) : Prop where
  streaming : a'.streaming = a.streaming
  doneFlag : a'.doneFlag = a.doneFlag
  buffered : a.streaming = false -> a'.buffered = a.buffered

namespace KeepsStream

theorem refl (a : AudioOutput) : KeepsStream a a :=
  ⟨rfl, rfl, fun _ => rfl⟩

theorem isOpen_iff (h : KeepsStream a a') : a'.IsOpen <-> a.IsOpen := by
  unfold IsOpen
  rw [h.streaming, h.doneFlag]

theorem isActive_eq (h : KeepsStream a a') : a'.isActive = a.isActive := by
  unfold isActive
  rw [h.streaming]
  cases hstream : a.streaming with
  | true => rfl
  | false => rw [h.buffered hstream]

end KeepsStream

/-!
## The pump
-/

theorem drained_true (h : a.drained = .ok true) :
    a.streaming = true ∧ a.doneFlag = true ∧ a.buffered = .ok 0 := by
  unfold drained at h
  by_cases hflags : (a.streaming && a.doneFlag) = true
  · rw [if_pos hflags] at h
    rcases bind_eq_ok.mp h with ⟨n, hn, hzero⟩
    rw [Bool.and_eq_true] at hflags
    injection hzero with hzero
    rw [decide_eq_true_eq] at hzero
    rw [hzero] at hn
    exact ⟨hflags.1, hflags.2, hn⟩
  · rw [if_neg hflags] at h
    cases h

theorem isActive_of_drained (h : a.drained = .ok true) (hstream : b.streaming = false)
    (hbuffered : b.buffered = a.buffered) : b.isActive = .ok false := by
  unfold isActive
  rw [hstream, hbuffered, (drained_true h).2.2]
  rfl

theorem stopPlayback_isActive (a : AudioOutput) :
    a.stopPlayback.isActive = .ok false <-> a.ring ≠ [] := by
  have hcap : a.stopPlayback.cap = a.cap := by
    simp [stopPlayback, cap]
  have hbuffered : a.stopPlayback.buffered = rem a.cap a.cap := by
    unfold buffered
    rw [hcap]
    simp [stopPlayback, sub]
  unfold isActive
  rw [hbuffered]
  by_cases hring : a.ring = []
  · simp [stopPlayback, rem, cap, hring]
  · simp [stopPlayback, rem, cap, hring]

theorem keepsStream_of_streaming (hstream : a.streaming = true)
    (hkeeps : a'.streaming = a.streaming) (hdone : a'.doneFlag = a.doneFlag) :
    KeepsStream a a' := by
  refine ⟨hkeeps, hdone, fun hcontra => ?_⟩
  rw [hstream] at hcontra
  cases hcontra

theorem tick_activity {inp : TickInput} {started : Bool} {p : Option Pushed}
    (h : tick rnd inp a = .ok (started, p, a')) :
    (KeepsStream a a' ∧ ¬ Finishes inp a) ∨
      (Finishes inp a ∧ a'.streaming = false ∧ a'.doneFlag = a.doneFlag ∧
        a'.isActive = .ok false) := by
  have hnot_done (hrun : inp.isDone = false) : ¬ Finishes inp a := by
    intro hfin
    rw [hfin.2.1] at hrun
    cases hrun
  have hrestart (hcase : Restarts inp a) : ¬ Finishes inp a := by
    intro hfin
    rcases hcase with ⟨hnone, _⟩ | ⟨_, _, hdrained⟩
    · exact hfin.1 hnone
    · rw [hfin.2.2] at hdrained
      cases hdrained
  cases tick_cases h with
  | silent _ hxfer => exact Or.inl ⟨KeepsStream.refl a, fun hfin => hfin.1 hxfer⟩
  | finished hxfer hdone hdrained =>
      refine Or.inr ⟨⟨hxfer, hdone, hdrained⟩, rfl, by simp, ?_⟩
      apply isActive_of_drained hdrained rfl
      simp [buffered, cap]
  | refilled _ hrun _ hstream _ p a' hfill =>
      have hframe := fillSlice_frame hfill
      refine Or.inl ⟨keepsStream_of_streaming hstream ?_ ?_, hnot_done hrun⟩
      · rw [hframe]
      · rw [hframe]
  | running _ hrun _ => exact Or.inl ⟨KeepsStream.refl a, hnot_done hrun⟩
  | stopped hcase _ =>
      refine Or.inl ⟨⟨by simp, by simp, fun _ => ?_⟩, hrestart hcase⟩
      simp [buffered, cap]
  | waiting hcase hstream _ =>
      exact Or.inl ⟨keepsStream_of_streaming hstream (by simp) (by simp),
        hrestart hcase⟩
  | noHandles hcase hstream _ _ =>
      exact Or.inl ⟨keepsStream_of_streaming hstream (by simp) (by simp),
        hrestart hcase⟩
  | launched hcase hstream _ tx stream _ _ p b hfill _ =>
      have hframe := fillSlice_frame hfill
      refine Or.inl ⟨keepsStream_of_streaming hstream ?_ ?_, hrestart hcase⟩
      · rw [hframe]
        simp
      · rw [hframe]
        simp
  | startFailed hcase hstream _ tx stream _ _ p b hfill _ =>
      have hframe := fillSlice_frame hfill
      refine Or.inl ⟨keepsStream_of_streaming hstream ?_ ?_, hrestart hcase⟩
      · rw [hframe]
        simp
      · rw [hframe]
        simp

/-!
## Feeding
-/

theorem feedBytes_frame {bs : List UInt8} (h : feedBytes bs a = .ok a') :
    a' = { a with ring := a'.ring, head := a'.head } := by
  induction bs generalizing a with
  | nil =>
      cases h
      rfl
  | cons c bs ih =>
      rcases bind_eq_ok.mp h with ⟨ring, _, h⟩
      rcases bind_eq_ok.mp h with ⟨head, _, h⟩
      have hrest := ih h
      rw [hrest]

theorem resampleLoop_frame {ratio t t' : Rat} {sCur : Sample} {fuel : Nat}
    {full : Bool} (h : resampleLoop rnd ratio sCur fuel t a = .ok (t', full, a')) :
    a' = { a with ring := a'.ring, head := a'.head } := by
  induction fuel generalizing t a with
  | zero => cases h
  | succ fuel ih =>
      unfold resampleLoop at h
      split at h
      · rcases bind_eq_ok.mp h with ⟨room, _, h⟩
        split at h
        · cases h
          rfl
        · rcases bind_eq_ok.mp h with ⟨ring1, _, h⟩
          rcases bind_eq_ok.mp h with ⟨next, _, h⟩
          rcases bind_eq_ok.mp h with ⟨ring2, _, h⟩
          rcases bind_eq_ok.mp h with ⟨head, _, h⟩
          have hrest := ih h
          rw [hrest]
      · cases h
        rfl

theorem resampleBlock_flags {ratio : Rat} {xs : List Sample}
    (h : resampleBlock rnd ratio xs a = .ok a') :
    a'.streaming = a.streaming ∧ a'.doneFlag = a.doneFlag := by
  induction xs generalizing a with
  | nil =>
      cases h
      exact ⟨rfl, rfl⟩
  | cons x xs ih =>
      rcases bind_eq_ok.mp h with ⟨⟨t, full, b⟩, hloop, h⟩
      have hframe := resampleLoop_frame hloop
      have hflags : b.streaming = a.streaming ∧ b.doneFlag = a.doneFlag := by
        rw [hframe]
        exact ⟨rfl, rfl⟩
      cases full with
      | true =>
          cases h
          exact hflags
      | false =>
          have hrest := ih h
          exact ⟨hrest.1.trans hflags.1, hrest.2.trans hflags.2⟩

theorem feed_keepsStream {mono16 : List UInt8} {n : Nat}
    (h : feed rnd mono16 a = .ok (n, a')) : KeepsStream a a' := by
  unfold feed at h
  by_cases hnothing : a.ring = [] ∨ mono16 = [] ∨ (!a.streaming) = true
  · rw [if_pos hnothing] at h
    cases h
    exact KeepsStream.refl a
  · rw [if_neg hnothing] at h
    have hstream : a.streaming = true := by
      by_contra hcontra
      exact hnothing (Or.inr (Or.inr (by simpa using hcontra)))
    split at h
    · rcases bind_eq_ok.mp h with ⟨room, _, h⟩
      rcases bind_eq_ok.mp h with ⟨b, hfed, h⟩
      cases h
      have hframe := feedBytes_frame hfed
      apply keepsStream_of_streaming hstream
      · rw [hframe]
      · rw [hframe]
    · rcases bind_eq_ok.mp h with ⟨b, hfed, h⟩
      cases h
      have hflags := resampleBlock_flags hfed
      exact keepsStream_of_streaming hstream hflags.1 hflags.2

end AudioOutput
end TWA
