import TWA.AudioOutput.Playback

/-!
# The resampler as a line

Resampling goes through one block after the other with a fraction carried over.
Read as a whole it samples a single line: the one through the input samples, with a
zero before the first.  Output `k` is taken at position `k * rate / 16000`, wherever
the blocks were cut.
-/

namespace TWA

open Foundation
open Foundation.Exec

namespace AudioOutput

/-! ## Positions -/

def outputsBefore (rate n : Nat) : Nat :=
  (n * 16000 + rate - 1) / rate

def phase (rate n k : Nat) : Rat :=
  k * rate / 16000 - n

section Positions

variable {rate n k : Nat}

theorem lt_outputsBefore (hrate : 0 < rate) :
    k < outputsBefore rate n <-> k * rate < n * 16000 := by
  unfold outputsBefore
  rw [Nat.lt_iff_add_one_le, Nat.le_div_iff_mul_le hrate, Nat.add_mul]
  omega

theorem outputsBefore_zero (hrate : 0 < rate) : outputsBefore rate 0 = 0 := by
  have h := (lt_outputsBefore (n := 0) (k := 0) hrate).not
  omega

theorem outputsBefore_mono (hrate : 0 < rate) {m : Nat} (h : n ≤ m) :
    outputsBefore rate n ≤ outputsBefore rate m := by
  unfold outputsBefore
  exact Nat.div_le_div_right (by omega)

theorem phase_lt_one (hrate : 0 < rate) :
    phase rate n k < 1 <-> k < outputsBefore rate (n + 1) := by
  rw [lt_outputsBefore hrate]
  unfold phase
  rw [sub_lt_iff_lt_add, div_lt_iff₀ (by norm_num)]
  constructor
  · intro h
    have hcast : ((k * rate : Nat) : Rat) < (((n + 1) * 16000 : Nat) : Rat) := by
      push_cast
      linarith
    exact_mod_cast hcast
  · intro h
    have hcast : ((k * rate : Nat) : Rat) < (((n + 1) * 16000 : Nat) : Rat) := by
      exact_mod_cast h
    push_cast at hcast
    linarith

theorem phase_nonneg (hrate : 0 < rate) :
    0 ≤ phase rate n k <-> outputsBefore rate n ≤ k := by
  rw [← not_lt (a := k), lt_outputsBefore hrate, not_lt]
  unfold phase
  rw [sub_nonneg, le_div_iff₀ (by norm_num)]
  exact_mod_cast Iff.rfl

theorem phase_succ_output : phase rate n k + rate / 16000 = phase rate n (k + 1) := by
  unfold phase
  push_cast
  ring

theorem phase_succ_input : phase rate n k - 1 = phase rate (n + 1) k := by
  unfold phase
  push_cast
  ring

end Positions

/-! ## Exact arithmetic -/

/-- The rounding is exact on every number that resampling from this rate computes. -/
structure ExactAt (rnd : Rat -> Rat) (rate : Nat) : Prop where
  ratio : rnd (rate / 16000) = rate / 16000
  phase : forall {n k}, 0 ≤ phase rate n k -> phase rate n k < 4 ->
    rnd (phase rate n k) = phase rate n k
  line : forall (x y : Sample) {n k}, 0 ≤ AudioOutput.phase rate n k ->
    AudioOutput.phase rate n k < 1 ->
    rnd (x.toInt + rnd (rnd (y.toInt - x.toInt) * AudioOutput.phase rate n k)) =
      x.toInt + (y.toInt - x.toInt) * AudioOutput.phase rate n k

theorem exactAt_id (rate : Nat) : ExactAt id rate where
  ratio := rfl
  phase := fun _ _ => rfl
  line := fun _ _ _ _ _ _ => rfl

theorem sample_bounds (x : Sample) : -32768 ≤ x.toInt ∧ x.toInt ≤ 32767 := by
  have hlow := BitVec.le_toInt x
  have hhigh := BitVec.toInt_lt (x := x)
  norm_num at hlow hhigh
  omega

theorem round_half {m : Int} (hm : |m| < 2 ^ 24) : F32.round (m / 2) = m / 2 := by
  have hself := F32.round_eq_self (e := -1) hm (by norm_num)
  rwa [zpow_neg_one, ← div_eq_mul_inv] at hself

theorem phase_default (n k : Nat) : phase 24000 n k = ((3 * k - 2 * n : Int) : Rat) / 2 := by
  unfold phase
  push_cast
  ring

theorem round_line (x y : Sample) {m : Int} (hm : m = 0 ∨ m = 1) :
    F32.round (x.toInt + F32.round (F32.round (y.toInt - x.toInt) * (m / 2))) =
      x.toInt + (y.toInt - x.toInt) * (m / 2) := by
  have hx := sample_bounds x
  have hy := sample_bounds y
  have hdiff : F32.round ((y.toInt : Rat) - x.toInt) = y.toInt - x.toInt := by
    have hself := round_half (m := 2 * (y.toInt - x.toInt)) (by rw [abs_lt]; omega)
    push_cast at hself
    rwa [mul_div_cancel_left₀ _ (by norm_num)] at hself
  rw [hdiff]
  rcases hm with rfl | rfl
  · have hself := round_half (m := 2 * x.toInt) (by rw [abs_lt]; omega)
    have hzero := round_half (m := 0) (by norm_num)
    push_cast at hself hzero ⊢
    rw [mul_div_cancel_left₀ _ (by norm_num)] at hself
    rw [zero_div] at hzero
    rw [zero_div, mul_zero, hzero, add_zero, hself]
  · have hmid := round_half (m := y.toInt - x.toInt) (by rw [abs_lt]; omega)
    have hsum := round_half (m := x.toInt + y.toInt) (by rw [abs_lt]; omega)
    push_cast at hmid hsum ⊢
    rw [mul_one_div, hmid]
    have hmix : (x.toInt : Rat) + (y.toInt - x.toInt) / 2 = (x.toInt + y.toInt) / 2 := by ring
    rw [hmix, hsum]

/-- Single precision has all the numbers that the default rate leads to. -/
theorem exactAt_round : ExactAt F32.round 24000 := by
  refine ⟨?_, ?_, ?_⟩
  · have hratio := round_half (m := 3) (by norm_num)
    norm_num at hratio ⊢
    exact hratio
  · intro n k hnonneg hlt
    rw [phase_default] at hnonneg hlt ⊢
    apply round_half
    have hlow : ((0 : Int) : Rat) ≤ ((3 * k - 2 * n : Int) : Rat) := by
      push_cast at hnonneg ⊢
      linarith
    have hhigh : ((3 * k - 2 * n : Int) : Rat) < ((8 : Int) : Rat) := by
      push_cast at hlt ⊢
      linarith
    rw [Int.cast_le] at hlow
    rw [Int.cast_lt] at hhigh
    rw [abs_lt]
    omega
  · intro x y n k hnonneg hlt
    rw [phase_default] at hnonneg hlt ⊢
    generalize (3 * k - 2 * n : Int) = m at hnonneg hlt ⊢
    have hlow : 0 ≤ m := by
      have hcast : ((0 : Int) : Rat) ≤ m := by
        push_cast
        linarith
      exact_mod_cast hcast
    have hhigh : m < 2 := by
      have hcast : (m : Rat) < ((2 : Int) : Rat) := by
        push_cast
        linarith
      exact_mod_cast hcast
    exact round_line x y (by omega)

def truncate (q : Rat) : Int :=
  if q < 0 then ⌈q⌉ else ⌊q⌋

theorem truncate_bounds {q : Rat} {low high : Int} (hlow : (low : Rat) ≤ q)
    (hhigh : q ≤ high) : low ≤ truncate q ∧ truncate q ≤ high := by
  unfold truncate
  split
  · exact ⟨Int.cast_le.mp (hlow.trans (Int.le_ceil q)), Int.ceil_le.mpr hhigh⟩
  · exact ⟨Int.le_floor.mpr hlow, Int.cast_le.mp ((Int.floor_le q).trans hhigh)⟩

theorem between_bounds (x y : Sample) {f : Rat} (hnonneg : 0 ≤ f) (hlt : f < 1) :
    ((-32768 : Int) : Rat) ≤ x.toInt + (y.toInt - x.toInt) * f ∧
      x.toInt + (y.toInt - x.toInt) * f ≤ ((32767 : Int) : Rat) := by
  have hx := sample_bounds x
  have hy := sample_bounds y
  have hxl : (-32768 : Rat) ≤ x.toInt := by exact_mod_cast hx.1
  have hxh : (x.toInt : Rat) ≤ 32767 := by exact_mod_cast hx.2
  have hyl : (-32768 : Rat) ≤ y.toInt := by exact_mod_cast hy.1
  have hyh : (y.toInt : Rat) ≤ 32767 := by exact_mod_cast hy.2
  have hmix : (x.toInt : Rat) + (y.toInt - x.toInt) * f =
      x.toInt * (1 - f) + y.toInt * f := by ring
  push_cast
  rw [hmix]
  constructor
  · nlinarith
  · nlinarith

theorem resampleOut_toInt {rnd : Rat -> Rat} {rate : Nat} (hexact : ExactAt rnd rate)
    (x y : Sample) {n k : Nat} (hnonneg : 0 ≤ phase rate n k) (hlt : phase rate n k < 1) :
    (resampleOut rnd x y (phase rate n k)).toInt =
      truncate (x.toInt + (y.toInt - x.toInt) * phase rate n k) := by
  have hpoint := between_bounds x y hnonneg hlt
  have hbounds := truncate_bounds hpoint.1 hpoint.2
  unfold resampleOut
  rw [hexact.line x y hnonneg hlt]
  have hint : F32.toI32 (x.toInt + (y.toInt - x.toInt) * phase rate n k) =
      truncate (x.toInt + (y.toInt - x.toInt) * phase rate n k) := by
    change max (-2147483648) (min 2147483647 (truncate _)) = _
    omega
  rw [hint, BitVec.toInt_ofInt, Int.bmod_eq_of_le (by omega) (by omega)]

/-! ## One block -/

def sampleBefore (s : List Sample) (i : Nat) : Sample :=
  if i = 0 then 0 else s.getD (i - 1) 0

def lineOut (rnd : Rat -> Rat) (rate : Nat) (s : List Sample) (k : Nat) : Sample :=
  let i := k * rate / 16000
  resampleOut rnd (sampleBefore s i) (s.getD i 0) (phase rate i k)

def blockEnd (rnd : Rat -> Rat) (ratio : Rat) :
    List Sample -> Rat -> Sample -> Rat × Sample
  | [], rFrac, rPrev => (rFrac, rPrev)
  | sCur :: rest, rFrac, rPrev =>
      let t := (outputs rnd ratio rPrev sCur 3 rFrac).2
      blockEnd rnd ratio rest (if 1 ≤ t then rnd (t - 1) else t) sCur

section Blocks

variable {rnd : Rat -> Rat} {rate : Nat}

theorem resampleBlock_all (hrnd : F32.Rounding rnd) {ratio : Rat}
    (hratio : 1 / 2 ≤ ratio) (block : List Sample) {a : AudioOutput} (h : InRange a)
    (hfrac : 0 ≤ a.rFrac)
    (hroom : a.contents.length +
      2 * (blockOutputs rnd ratio block a.rFrac a.rPrev).length < a.ring.length) :
    exists a', resampleBlock rnd ratio block a = .ok a' ∧
      Stores ((blockOutputs rnd ratio block a.rFrac a.rPrev).flatMap bytesOf) a a' ∧
      (a'.rFrac, a'.rPrev) = blockEnd rnd ratio block a.rFrac a.rPrev := by
  induction block generalizing a with
  | nil => exact ⟨a, rfl, by simpa [blockOutputs] using Stores.refl h, rfl⟩
  | cons sCur rest ih =>
      rcases resampleLoop_eq hrnd hratio sCur 3 h ⟨hfrac, Or.inl (Nat.le_refl _)⟩ with
        ⟨t, full, a1, k, hloop, hnonneg, hstores, hdone, hfull⟩
      rcases houts : outputs rnd ratio a.rPrev sCur 3 a.rFrac with ⟨outs, last⟩
      rw [houts] at hstores hdone hfull
      unfold blockOutputs at hroom ⊢
      unfold resampleBlock blockEnd
      simp only [houts, hloop, ok_bind] at hroom ⊢
      have hlen := hstores.length_contents
      rw [length_flatMap_bytesOf, List.length_take] at hlen
      rw [List.length_append] at hroom
      cases full with
      | true =>
          rcases hfull rfl with ⟨hk, hnoRoom⟩
          have hstored : k < outs.length := hk
          rw [hstores.cap_eq] at hnoRoom
          omega
      | false =>
          rcases hdone rfl with ⟨hk, ht⟩
          have hall : outs.take k = outs := by rw [hk, List.take_length]
          rw [hall] at hstores
          rw [ht] at hnonneg ⊢
          have hnext := hstores.resampler (if 1 ≤ last then rnd (last - 1) else last) sCur
          have hfrac1 : 0 ≤ if 1 ≤ last then rnd (last - 1) else last := by
            split
            · exact hrnd.nonneg (by linarith)
            · exact hnonneg
          rcases ih hnext.inRange hfrac1 (by
              rw [hnext.length_contents, length_flatMap_bytesOf, hnext.cap_eq]
              change _ + 2 * (blockOutputs rnd ratio rest
                (if 1 ≤ last then rnd (last - 1) else last) sCur).length < _
              omega) with ⟨a', hrest, hrun, hend⟩
          refine ⟨a', hrest, ?_, hend⟩
          rw [List.flatMap_append]
          exact hnext.trans hrun

def lineBetween (rnd : Rat -> Rat) (rate : Nat) (s : List Sample) (m n : Nat) : List Sample :=
  (List.range' (outputsBefore rate m) (outputsBefore rate n - outputsBefore rate m)).map
    (lineOut rnd rate s)

theorem lineBetween_self (s : List Sample) (n : Nat) : lineBetween rnd rate s n n = [] := by
  simp [lineBetween]

theorem lineBetween_append (hrate : 0 < rate) (s : List Sample) {m n p : Nat} (hmn : m ≤ n)
    (hnp : n ≤ p) :
    lineBetween rnd rate s m n ++ lineBetween rnd rate s n p = lineBetween rnd rate s m p := by
  have hleft := outputsBefore_mono hrate hmn
  have hright := outputsBefore_mono hrate hnp
  have hmid : outputsBefore rate n =
      outputsBefore rate m + (outputsBefore rate n - outputsBefore rate m) := by omega
  unfold lineBetween
  rw [← List.map_append]
  congr 1
  nth_rewrite 2 [hmid]
  rw [List.range'_append_1]
  congr 1
  omega

structure Accepted (rnd : Rat -> Rat) (rate : Nat) : Prop extends ExactAt rnd rate where
  rounding : F32.Rounding rnd
  low : 8000 ≤ rate
  high : rate ≤ 48000

namespace Accepted

theorem pos (h : Accepted rnd rate) : 0 < rate :=
  Nat.lt_of_lt_of_le (by decide) h.low

theorem half_le (h : Accepted rnd rate) : 1 / 2 ≤ (rate : Rat) / 16000 := by
  have hlow : (8000 : Rat) ≤ rate := by exact_mod_cast h.low
  rw [le_div_iff₀ (by norm_num)]
  linarith

theorem le_three (h : Accepted rnd rate) : (rate : Rat) / 16000 ≤ 3 := by
  have hhigh : (rate : Rat) ≤ 48000 := by exact_mod_cast h.high
  rw [div_le_iff₀ (by norm_num)]
  linarith

theorem phase_lt_three (h : Accepted rnd rate) (n : Nat) :
    AudioOutput.phase rate n (outputsBefore rate n) < 3 := by
  have hlast : outputsBefore rate n * rate < n * 16000 + rate := by
    unfold outputsBefore
    have hdiv := Nat.div_mul_le_self (n * 16000 + rate - 1) rate
    have hpos := h.pos
    omega
  have hnat : outputsBefore rate n * rate < n * 16000 + 48000 := by
    have hhigh := h.high
    omega
  have hcast : ((outputsBefore rate n * rate : Nat) : Rat) < ((n * 16000 + 48000 : Nat) : Rat) := by
    exact_mod_cast hnat
  push_cast at hcast
  unfold AudioOutput.phase
  rw [sub_lt_iff_lt_add, div_lt_iff₀ (by norm_num)]
  linarith

theorem outputs_eq (h : Accepted rnd rate) (x y : Sample) (n : Nat) {fuel k : Nat}
    (henough : Enough fuel (AudioOutput.phase rate n k)) :
    outputs rnd (rate / 16000) x y fuel (AudioOutput.phase rate n k) =
      ((List.range' k (outputsBefore rate (n + 1) - k)).map
          (fun j => resampleOut rnd x y (AudioOutput.phase rate n j)),
        AudioOutput.phase rate n (max k (outputsBefore rate (n + 1)))) := by
  induction fuel generalizing k with
  | zero =>
      rcases henough with ⟨_, hfuel⟩
      omega
  | succ fuel ih =>
      unfold outputs
      by_cases ht : AudioOutput.phase rate n k < 1
      · have hk := (phase_lt_one h.pos).mp ht
        have hnext := henough.next h.rounding h.half_le ht
        have hratio := h.le_three
        have hhalf := h.half_le
        have hround : rnd (AudioOutput.phase rate n k + rate / 16000) =
            AudioOutput.phase rate n (k + 1) := by
          rw [phase_succ_output]
          apply h.phase
          · rw [← phase_succ_output]
            linarith [henough.1]
          · rw [← phase_succ_output]
            linarith
        rw [hround] at hnext
        have hcount : outputsBefore rate (n + 1) - k =
            outputsBefore rate (n + 1) - (k + 1) + 1 := by omega
        have hmax : max k (outputsBefore rate (n + 1)) =
            max (k + 1) (outputsBefore rate (n + 1)) := by omega
        rw [if_pos ht, hround, ih hnext, hcount, hmax, List.range'_succ, List.map_cons]
      · have hk := (phase_lt_one h.pos).not.mp ht
        have hcount : outputsBefore rate (n + 1) - k = 0 := by omega
        have hmax : max k (outputsBefore rate (n + 1)) = k := by omega
        rw [if_neg ht, hcount, hmax]
        rfl

theorem outputs_line (h : Accepted rnd rate) (s : List Sample) (n : Nat) :
    outputs rnd (rate / 16000) (sampleBefore s n) (s.getD n 0) 3
        (AudioOutput.phase rate n (outputsBefore rate n)) =
      (lineBetween rnd rate s n (n + 1),
        AudioOutput.phase rate n (outputsBefore rate (n + 1))) := by
  have hmono := outputsBefore_mono h.pos (Nat.le_succ n)
  have hnonneg := (phase_nonneg (n := n) h.pos).mpr (Nat.le_refl (outputsBefore rate n))
  rw [h.outputs_eq _ _ n ⟨hnonneg, Or.inl (Nat.le_refl _)⟩, Nat.max_eq_right hmono]
  congr 1
  apply List.map_congr_left
  intro j hj
  rw [List.mem_range'_1] at hj
  have hlow := (lt_outputsBefore (n := n) (k := j) h.pos).not.mp (by omega)
  have hhigh := (lt_outputsBefore (n := n + 1) (k := j) h.pos).mp (by omega)
  have hindex : j * rate / 16000 = n := by omega
  unfold lineOut
  rw [hindex]

theorem carry_eq (h : Accepted rnd rate) (n : Nat) :
    (if 1 ≤ AudioOutput.phase rate n (outputsBefore rate (n + 1)) then
        rnd (AudioOutput.phase rate n (outputsBefore rate (n + 1)) - 1)
      else AudioOutput.phase rate n (outputsBefore rate (n + 1))) =
      AudioOutput.phase rate (n + 1) (outputsBefore rate (n + 1)) := by
  have hge := (phase_lt_one (n := n) h.pos).not.mpr
    (Nat.lt_irrefl (outputsBefore rate (n + 1)))
  have hlt := h.phase_lt_three (n + 1)
  rw [if_pos (not_lt.mp hge), phase_succ_input]
  apply h.phase
  · exact (phase_nonneg h.pos).mpr (Nat.le_refl _)
  · linarith

theorem block_line (h : Accepted rnd rate) (block done : List Sample) {more s : List Sample}
    (hs : s = done ++ block ++ more) :
    blockOutputs rnd (rate / 16000) block
        (AudioOutput.phase rate done.length (outputsBefore rate done.length))
        (sampleBefore s done.length) =
      lineBetween rnd rate s done.length (done.length + block.length) ∧
    blockEnd rnd (rate / 16000) block
        (AudioOutput.phase rate done.length (outputsBefore rate done.length))
        (sampleBefore s done.length) =
      (AudioOutput.phase rate (done.length + block.length)
          (outputsBefore rate (done.length + block.length)),
        sampleBefore s (done.length + block.length)) := by
  induction block generalizing done with
  | nil => exact ⟨(lineBetween_self s _).symm, rfl⟩
  | cons sCur rest ih =>
      have hcur : s.getD done.length 0 = sCur := by simp [hs]
      have hnext : sampleBefore s (done.length + 1) = sCur := hcur
      have hone := h.outputs_line s done.length
      rw [hcur] at hone
      rcases ih (done ++ [sCur]) (by simp [hs]) with ⟨hrest, hend⟩
      rw [List.length_append, List.length_singleton, hnext] at hrest hend
      have hlen : done.length + (sCur :: rest).length = done.length + 1 + rest.length := by
        rw [List.length_cons]
        omega
      unfold blockOutputs blockEnd
      simp only [hone, h.carry_eq]
      rw [hlen, hrest, hend]
      exact ⟨lineBetween_append h.pos s (by omega) (by omega), rfl⟩

end Accepted

end Blocks

/-! ## Calls -/

def Event.input (e : Event) : List Sample :=
  match e.call with
  | .feed mono16 => samplesOf mono16
  | _ => []

/-- A feed call finds the stream open and more room than its outputs take. -/
def Roomy (e : Event) (a : AudioOutput) : Prop :=
  forall mono16, e.call = .feed mono16 ->
    a.streaming = true ∧ a.contents.length + 2 * e.offered.length < a.ring.length

section Calls

variable {rnd : Rat -> Rat} {a a' : AudioOutput}

theorem tick_rPrev {inp : TickInput} {started : Bool} {p : Option Pushed}
    (htick : tick rnd inp a = .ok (started, p, a')) : a'.rPrev = a.rPrev := by
  cases tick_cases htick with
  | silent _ _ => rfl
  | finished _ _ _ => exact reclaim_rPrev a
  | refilled _ _ _ _ _ p _ hfill => rw [fillSlice_frame hfill]
  | running _ _ _ => rfl
  | stopped _ _ => exact reclaim_rPrev a
  | waiting _ _ _ => exact reclaim_rPrev a
  | noHandles _ _ _ _ => exact reclaim_rPrev a
  | launched _ _ _ tx stream _ _ p b hfill _ =>
      have hframe : b.rPrev = (reclaim a).rPrev := by rw [fillSlice_frame hfill]
      exact hframe.trans (reclaim_rPrev a)
  | startFailed _ _ _ tx stream _ _ p b hfill _ =>
      have hframe : b.rPrev = (reclaim a).rPrev := by rw [fillSlice_frame hfill]
      exact hframe.trans (reclaim_rPrev a)

theorem perform_rPrev {c : Call} {pushed : List Pushed} (hcall : forall mono16, c ≠ .feed mono16)
    (hperform : perform rnd c a = .ok (pushed, a')) : a'.rPrev = a.rPrev := by
  cases c with
  | feed mono16 => exact absurd rfl (hcall mono16)
  | finishStream =>
      cases hperform
      rfl
  | setVolume v =>
      cases hperform
      rfl
  | fill outLen =>
      rcases bind_eq_ok.mp hperform with ⟨⟨p, b⟩, hfill, hend⟩
      cases hend
      rw [fillSlice_frame hfill]
  | tick inp =>
      rcases bind_eq_ok.mp hperform with ⟨⟨started, p, b⟩, htick, hend⟩
      cases hend
      exact tick_rPrev htick

theorem feed_all (hrnd : F32.Rounding rnd) (mono16 : List UInt8) (h : Sound a)
    (hstream : a.streaming = true) (hrate : a.inRate ≠ Config.spkSampleRate)
    (hroom : a.contents.length + 2 * (offered rnd (.feed mono16) a).length < a.ring.length) :
    exists n a', feed rnd mono16 a = .ok (n, a') ∧
      Stores ((offered rnd (.feed mono16) a).flatMap bytesOf) a a' ∧
      (a'.rFrac, a'.rPrev) =
        blockEnd rnd (ratio rnd a.inRate) (samplesOf mono16) a.rFrac a.rPrev := by
  have hoffered : offered rnd (.feed mono16) a =
      blockOutputs rnd (ratio rnd a.inRate) (samplesOf mono16) a.rFrac a.rPrev := if_neg hrate
  rw [hoffered] at hroom ⊢
  rcases resampleBlock_all hrnd (half_le_ratio hrnd h.rate_ge) (samplesOf mono16) h.toInRange
    h.frac_nonneg hroom with ⟨a', hblock, hstores, hend⟩
  unfold feed
  by_cases hnil : mono16 = []
  · rw [if_pos (Or.inr (Or.inl hnil)), hnil]
    exact ⟨0, a, rfl, Stores.refl h.toInRange, rfl⟩
  · have hgo : ¬ (a.ring = [] ∨ mono16 = [] ∨ (!a.streaming) = true) := by
      simp [h.ring_ne_nil, hnil, hstream]
    rw [if_neg hgo, if_neg hrate, hblock, ok_bind]
    exact ⟨_, a', rfl, hstores, hend⟩

structure Tuned (rate : Nat) (s : List Sample) (n : Nat) (a : AudioOutput) : Prop
    extends Sound a where
  inRate_eq : a.inRate.toNat = rate
  rFrac_eq : a.rFrac = phase rate n (outputsBefore rate n)
  rPrev_eq : a.rPrev = sampleBefore s n

variable {rate : Nat} {s done more : List Sample} {e : Event}

theorem Event.input_eq {mono16 : List UInt8} (hcall : e.call = .feed mono16) :
    e.input = samplesOf mono16 := by
  unfold Event.input
  rw [hcall]

theorem Event.input_nil (hcall : forall mono16, e.call ≠ .feed mono16) : e.input = [] := by
  unfold Event.input
  split
  · rename_i mono16 heq
    exact absurd heq (hcall mono16)
  · rfl

theorem Step.line_feed (hrate : Accepted rnd rate) (hne : rate ≠ 16000)
    (hs : s = done ++ e.input ++ more) (h : Tuned rate s done.length a) (hroomy : Roomy e a)
    (hstep : Step rnd e a a') {mono16 : List UInt8} (hcall : e.call = .feed mono16) :
    e.stored =
        (lineBetween rnd rate s done.length (done.length + e.input.length)).flatMap bytesOf ∧
      Tuned rate s (done.length + e.input.length) a' := by
  have hstored := hstep.stored_eq
  have hinput := Event.input_eq hcall
  have hratio : ratio rnd a.inRate = rate / 16000 := by
    unfold ratio
    rw [h.inRate_eq]
    exact hrate.ratio
  have hother : a.inRate ≠ Config.spkSampleRate := by
    intro hcontra
    have hinRate := h.inRate_eq
    rw [hcontra] at hinRate
    exact hne hinRate.symm
  have hblock := hrate.block_line (samplesOf mono16) done (hinput ▸ hs)
  rw [← h.rFrac_eq, ← h.rPrev_eq, ← hratio] at hblock
  have hoffered : offered rnd (.feed mono16) a =
      lineBetween rnd rate s done.length (done.length + (samplesOf mono16).length) :=
    (if_neg hother).trans hblock.1
  rcases hroomy mono16 hcall with ⟨hstream, hroom⟩
  rw [hstep.offered_eq, hcall] at hroom
  rcases feed_all hrate.rounding mono16 h.toSound hstream hother hroom with
    ⟨n, b, hfed, hstores, hend⟩
  have hperform := hstep.call_eq
  rw [hcall] at hperform
  simp only [perform, hfed, ok_bind, pure_eq_ok, Except.ok.injEq, Prod.mk.injEq] at hperform
  rcases hperform with ⟨_, rfl⟩
  rw [hstores.stored_eq h.toInRange, hoffered] at hstored
  rw [hblock.2, Prod.mk.injEq] at hend
  rw [hinput]
  refine ⟨hstored, Step.sound hrate.rounding h.toSound hstep, ?_, hend.1, hend.2⟩
  rw [hstores.inRate]
  exact h.inRate_eq

theorem Step.line_other (hrate : Accepted rnd rate) {n : Nat} (h : Tuned rate s n a)
    (hstep : Step rnd e a a') (hcall : forall mono16, e.call ≠ .feed mono16) :
    e.stored = [] ∧ Tuned rate s n a' := by
  cases Step.cases hrate.rounding h.toSound hstep with
  | fed mono16 _ _ hfed _ _ _ _ => exact absurd hfed (hcall mono16)
  | drained taken _ hdrain _ _ =>
      refine ⟨?_, Step.sound hrate.rounding h.toSound hstep, ?_, ?_, ?_⟩
      · rw [hstep.stored_eq, hdrain.stored_eq h.toInRange]
      · rw [hdrain.inRate_eq]
        exact h.inRate_eq
      · rw [hdrain.rFrac_eq]
        exact h.rFrac_eq
      · rw [perform_rPrev hcall hstep.call_eq]
        exact h.rPrev_eq

theorem Step.line (hrate : Accepted rnd rate) (hne : rate ≠ 16000)
    (hs : s = done ++ e.input ++ more) (h : Tuned rate s done.length a) (hroomy : Roomy e a)
    (hstep : Step rnd e a a') :
    e.stored =
        (lineBetween rnd rate s done.length (done.length + e.input.length)).flatMap bytesOf ∧
      Tuned rate s (done.length + e.input.length) a' := by
  by_cases hfeed : exists mono16, e.call = .feed mono16
  · rcases hfeed with ⟨mono16, hcall⟩
    exact Step.line_feed hrate hne hs h hroomy hstep hcall
  · have hcall : forall mono16, e.call ≠ .feed mono16 := not_exists.mp hfeed
    rw [Event.input_nil hcall, List.length_nil, Nat.add_zero, lineBetween_self]
    exact Step.line_other hrate h hstep hcall

variable (done) in
theorem run_line (hrate : Accepted rnd rate) (hne : rate ≠ 16000) {es : List Event}
    (hs : s = done ++ es.flatMap Event.input) (h : Tuned rate s done.length a)
    (hrun : Run (Guarded Roomy (Step rnd)) a es a') :
    es.flatMap Event.stored = (lineBetween rnd rate s done.length s.length).flatMap bytesOf := by
  induction hrun generalizing done with
  | nil _ =>
      have hdone : s.length = done.length := by simp [hs]
      rw [hdone, lineBetween_self]
      rfl
  | cons hstep hrest ih =>
      rename_i e es
      rw [List.flatMap_cons, ← List.append_assoc] at hs
      rcases Step.line hrate hne hs h hstep.1 hstep.2 with ⟨hstored, hnext⟩
      rw [← List.length_append] at hstored hnext
      have hlen : (done ++ e.input).length ≤ s.length := by
        rw [hs]
        exact (List.sublist_append_left _ _).length_le
      have hbefore : done.length ≤ (done ++ e.input).length := by
        rw [List.length_append]
        omega
      rw [List.flatMap_cons, hstored, ih _ hs hnext, ← List.flatMap_append,
        lineBetween_append hrate.pos s hbefore hlen]

end Calls

/-! ## The line as a formula -/

/-- Output `k`: between input sample `i` and the one before it, `i` the integer part
of the position, at its fractional part. -/
def lineAt (rate : Nat) (s : List Sample) (k : Nat) : Int :=
  let i := k * rate / 16000
  let f : Rat := (k * rate % 16000 : Nat) / 16000
  let prev := (sampleBefore s i).toInt
  truncate (prev + ((s.getD i 0).toInt - prev) * f)

section Formula

variable {rnd : Rat -> Rat}

theorem outputsBefore_eq_ceil {rate : Nat} (hrate : 0 < rate) (n : Nat) :
    outputsBefore rate n = ⌈(n * 16000 / rate : Rat)⌉₊ := by
  apply eq_of_forall_lt_iff
  intro k
  have hpos : (0 : Rat) < rate := by exact_mod_cast hrate
  rw [lt_outputsBefore hrate, Nat.lt_ceil, lt_div_iff₀ hpos]
  exact_mod_cast Iff.rfl

theorem phase_div (rate k : Nat) :
    phase rate (k * rate / 16000) k = ((k * rate % 16000 : Nat) : Rat) / 16000 := by
  have hsplit := Nat.div_add_mod (k * rate) 16000
  have hcast : (16000 : Rat) * (k * rate / 16000 : Nat) + (k * rate % 16000 : Nat) =
      k * rate := by exact_mod_cast hsplit
  unfold phase
  rw [← hcast]
  ring

theorem lineOut_toInt {rate : Nat} (hrate : Accepted rnd rate) (s : List Sample) (k : Nat) :
    (lineOut rnd rate s k).toInt = lineAt rate s k := by
  have hnonneg : 0 ≤ phase rate (k * rate / 16000) k := by
    rw [phase_div]
    positivity
  have hlt : phase rate (k * rate / 16000) k < 1 := by
    have hmod : k * rate % 16000 < 16000 := Nat.mod_lt _ (by decide)
    have hcast : ((k * rate % 16000 : Nat) : Rat) < 16000 := by exact_mod_cast hmod
    rw [phase_div, div_lt_one (by norm_num)]
    exact hcast
  have hout := resampleOut_toInt hrate.toExactAt (sampleBefore s (k * rate / 16000))
    (s.getD (k * rate / 16000) 0) hnonneg hlt
  unfold lineOut lineAt
  rw [← phase_div]
  exact hout

theorem beginStream_tuned {a : AudioOutput} {rate : UInt32} (hlow : 8000 ≤ rate)
    (hhigh : rate ≤ 48000) (hring : a.ring ≠ []) (s : List Sample) :
    Tuned rate.toNat s 0 (beginStream rate a) where
  toSound := beginStream_sound rate hring
  inRate_eq := by simp [beginStream, hlow, hhigh]
  rFrac_eq := by
    have hpos : 0 < rate.toNat :=
      Nat.lt_of_lt_of_le (by decide) (UInt32.le_iff_toNat_le.mp hlow)
    rw [outputsBefore_zero hpos]
    simp [beginStream, phase]
  rPrev_eq := rfl

/-- The resampler samples one line.  Whatever is fed after `begin_stream`, in whatever
blocks, with room for it: the samples stored are those of the line through all the
input, one for each position before its end.  Arithmetic is exact, or single
precision at the default rate. -/
theorem resampler_samples_one_line {a a' : AudioOutput} {rate : UInt32} {es : List Event}
    (hrnd : rnd = id ∨ (rnd = F32.round ∧ rate = 24000)) (hlow : 8000 ≤ rate)
    (hhigh : rate ≤ 48000) (hne : rate ≠ 16000) (hring : a.ring ≠ [])
    (hrun : Run (Guarded Roomy (Step rnd)) (beginStream rate a) es a') :
    exists out : List Sample,
      es.flatMap Event.stored = out.flatMap bytesOf ∧
        out.map BitVec.toInt =
          (List.range out.length).map (lineAt rate.toNat (es.flatMap Event.input)) ∧
        (forall k, k < out.length <->
          k * rate.toNat < (es.flatMap Event.input).length * 16000) ∧
        out.length = ⌈((es.flatMap Event.input).length * 16000 / rate.toNat : Rat)⌉₊ ∧
        (forall call, exists pushed b, perform rnd call a' = .ok (pushed, b)) := by
  have hrate : Accepted rnd rate.toNat := by
    have hge := UInt32.le_iff_toNat_le.mp hlow
    have hle := UInt32.le_iff_toNat_le.mp hhigh
    rcases hrnd with rfl | ⟨rfl, rfl⟩
    · exact ⟨exactAt_id _, F32.rounding_exact, hge, hle⟩
    · exact ⟨exactAt_round, F32.rounding_round, hge, hle⟩
  have hother : rate.toNat ≠ 16000 := by
    intro hcontra
    exact hne (UInt32.toNat_inj.mp hcontra)
  have hline := run_line [] hrate hother (List.nil_append _).symm
    (beginStream_tuned hlow hhigh hring _) hrun
  have hlength : (lineBetween rnd rate.toNat (es.flatMap Event.input) 0
      (es.flatMap Event.input).length).length =
        outputsBefore rate.toNat (es.flatMap Event.input).length := by
    simp [lineBetween, outputsBefore_zero hrate.pos]
  refine ⟨_, hline, ?_, ?_, ?_, ?_⟩
  · rw [List.length_nil, hlength]
    unfold lineBetween
    rw [outputsBefore_zero hrate.pos, Nat.sub_zero, ← List.range_eq_range', List.map_map]
    apply List.map_congr_left
    intro k _
    exact lineOut_toInt hrate _ k
  · intro k
    rw [List.length_nil, hlength]
    exact lt_outputsBefore hrate.pos
  · rw [List.length_nil, hlength]
    exact outputsBefore_eq_ceil hrate.pos _
  · exact perform_ok hrate.rounding
      (run_sound hrate.rounding (beginStream_sound rate hring) hrun)

/-- Two blocks of one sample each; the second output lies across the cut. -/
theorem resampler_samples_one_line_two_blocks :
    exists es : List Event, es.flatMap Event.input = [100, 200] ∧
      exists out : List Sample,
        es.flatMap Event.stored = out.flatMap bytesOf ∧
          out.map BitVec.toInt = (List.range out.length).map (lineAt 24000 [100, 200]) := by
  have hrun : Run (Guarded Roomy (Step F32.round)) (beginStream 24000 (withRing 16))
      [{ call := .feed [100, 0], volume := 80, offered := [0], stored := [0, 0],
         removed := [], pushed := [] },
       { call := .feed [200, 0], volume := 80, offered := [150], stored := [150, 0],
         removed := [], pushed := [] }]
      { beginStream 24000 (withRing 16) with
        ring := [0, 0, 150, 0, 0, 0, 0, 0, 0, 0, 0, 0, 0, 0, 0, 0]
        head := 4
        rFrac := 1
        rPrev := 200 } := by
    refine Run.cons (t := { beginStream 24000 (withRing 16) with
      head := 2, rFrac := 1 / 2, rPrev := 100 }) ⟨?_, ?_⟩ (Run.single ⟨?_, ?_⟩)
    · exact fun _ _ => ⟨rfl, by decide⟩
    · exact ⟨by decide +kernel, rfl, by decide +kernel, by decide +kernel,
        by decide +kernel⟩
    · exact fun _ _ => ⟨rfl, by decide⟩
    · exact ⟨by decide +kernel, rfl, by decide +kernel, by decide +kernel,
        by decide +kernel⟩
  rcases resampler_samples_one_line (Or.inr ⟨rfl, rfl⟩) (by decide) (by decide)
    (by decide) (by decide) hrun with ⟨out, hstored, hline, _⟩
  exact ⟨_, by decide, out, hstored, hline⟩

end Formula

end AudioOutput
end TWA
