import TWA.AudioOutput.Model

/-!
# The PCM ring as a byte queue

Feeding appends to the bytes between tail and head and draining removes whole
samples from their front.  Neither faults while the two indices are in range.
-/

namespace TWA

open Foundation
open Foundation.Exec

namespace AudioOutput

/-- The unread bytes, oldest first. -/
def contents (a : AudioOutput) : List UInt8 :=
  Ring.contents a.ring a.head a.tail

structure InRange (a : AudioOutput) : Prop where
  head_lt : a.head < a.ring.length
  tail_lt : a.tail < a.ring.length

namespace InRange

variable {a : AudioOutput}

theorem cap_pos (h : InRange a) : 0 < a.ring.length :=
  Nat.lt_of_le_of_lt (Nat.zero_le _) h.head_lt

theorem ring_ne_nil (h : InRange a) : a.ring ≠ [] :=
  List.ne_nil_of_length_pos h.cap_pos

theorem length_contents (h : InRange a) :
    a.contents.length = Ring.count a.ring.length a.head a.tail :=
  Ring.length_contents h.head_lt

theorem length_contents_lt (h : InRange a) :
    a.contents.length < a.ring.length := by
  rw [h.length_contents]
  exact Ring.count_lt h.head_lt

theorem buffered_eq (h : InRange a) : a.buffered = .ok a.contents.length := by
  have hhead := h.head_lt
  have htail := h.tail_lt
  unfold buffered cap
  rw [sub_of_le (by omega), ok_bind, rem_of_pos h.cap_pos, h.length_contents]
  rfl

theorem space_eq (h : InRange a) :
    a.space = .ok (a.ring.length - 1 - a.contents.length) := by
  have hhead := h.head_lt
  have htail := h.tail_lt
  unfold space cap
  rw [sub_of_le (by omega), ok_bind, sub_of_le (by omega), ok_bind,
    rem_of_pos h.cap_pos, h.length_contents, ← Ring.free_eq hhead htail]
  rfl

end InRange

/-!
## Storing
-/

/-- `a'` is `a` with `bytes` appended to the ring; only the ring, its head and
the resampler state differ. -/
structure Stores (bytes : List UInt8) (a a' : AudioOutput) : Prop where
  inRange : InRange a'
  cap_eq : a'.ring.length = a.ring.length
  contents_eq : a'.contents = a.contents ++ bytes
  frame : a' =
    { a with
      ring := a'.ring
      head := a'.head
      rFrac := a'.rFrac
      rPrev := a'.rPrev }

namespace Stores

variable {a b c : AudioOutput} {xs ys : List UInt8}

theorem refl (h : InRange a) : Stores [] a a :=
  ⟨h, rfl, (List.append_nil _).symm, rfl⟩

theorem trans (hab : Stores xs a b) (hbc : Stores ys b c) :
    Stores (xs ++ ys) a c := by
  refine ⟨hbc.inRange, hbc.cap_eq.trans hab.cap_eq, ?_, ?_⟩
  · rw [hbc.contents_eq, hab.contents_eq, List.append_assoc]
  · rw [hbc.frame, hab.frame]

theorem resampler (h : Stores xs a b) (frac : Rat) (prev : Sample) :
    Stores xs a { b with rFrac := frac, rPrev := prev } := by
  refine ⟨⟨h.inRange.head_lt, h.inRange.tail_lt⟩, h.cap_eq, h.contents_eq, ?_⟩
  rw [h.frame]

theorem streaming (h : Stores xs a b) : b.streaming = a.streaming := by
  rw [h.frame]

theorem doneFlag (h : Stores xs a b) : b.doneFlag = a.doneFlag := by
  rw [h.frame]

theorem inRate (h : Stores xs a b) : b.inRate = a.inRate := by
  rw [h.frame]

theorem tail (h : Stores xs a b) : b.tail = a.tail := by
  rw [h.frame]

theorem xfer (h : Stores xs a b) : b.xfer = a.xfer := by
  rw [h.frame]

theorem length_contents (h : Stores xs a b) :
    b.contents.length = a.contents.length + xs.length := by
  rw [h.contents_eq, List.length_append]

end Stores

theorem stores_byte {a : AudioOutput} (h : InRange a)
    (hroom : a.contents.length + 1 < a.ring.length) (x : UInt8) :
    Stores [x] a
      { a with
        ring := a.ring.set a.head x
        head := (a.head + 1) % a.ring.length } := by
  have hlt : (a.head + 1) % a.ring.length < a.ring.length :=
    Nat.mod_lt _ h.cap_pos
  refine ⟨⟨?_, ?_⟩, ?_, ?_, rfl⟩
  · simpa using hlt
  · simpa using h.tail_lt
  · simp
  · rw [h.length_contents] at hroom
    exact Ring.contents_push h.head_lt h.tail_lt hroom x

theorem feedBytes_eq {a : AudioOutput} (h : InRange a) (bs : List UInt8)
    (hroom : a.contents.length + bs.length < a.ring.length) :
    exists a', feedBytes bs a = .ok a' ∧ Stores bs a a' := by
  induction bs generalizing a with
  | nil => exact ⟨a, rfl, Stores.refl h⟩
  | cons b bs ih =>
      rw [List.length_cons] at hroom
      have hfirst := stores_byte h (by omega) b
      rcases ih hfirst.inRange (by
          rw [hfirst.length_contents, hfirst.cap_eq, List.length_singleton]
          omega) with ⟨a', hrest, hstores⟩
      refine ⟨a', ?_, hfirst.trans hstores⟩
      unfold feedBytes cap
      rw [store_of_lt _ h.head_lt, ok_bind, rem_of_pos h.cap_pos, ok_bind]
      exact hrest

theorem feedBytes_rFrac {bs : List UInt8} {a a' : AudioOutput}
    (h : feedBytes bs a = .ok a') : a'.rFrac = a.rFrac := by
  induction bs generalizing a with
  | nil =>
      cases h
      rfl
  | cons b bs ih =>
      unfold feedBytes at h
      rcases bind_eq_ok.mp h with ⟨ring, _, h⟩
      rcases bind_eq_ok.mp h with ⟨head, _, h⟩
      have hrest := ih h
      exact hrest

def bytesOf (s : Sample) : List UInt8 :=
  [lowByte s, highByte s]

theorem length_flatMap_bytesOf (xs : List Sample) :
    (xs.flatMap bytesOf).length = 2 * xs.length := by
  induction xs with
  | nil => rfl
  | cons s xs ih =>
      rw [List.flatMap_cons, List.length_append, ih, List.length_cons]
      change 2 + 2 * xs.length = 2 * (xs.length + 1)
      omega

theorem stores_sample {a : AudioOutput} (h : InRange a)
    (hroom : a.contents.length + 2 < a.ring.length) (s : Sample) :
    Stores (bytesOf s) a
      { a with
        ring := (a.ring.set a.head (lowByte s)).set
          ((a.head + 1) % a.ring.length) (highByte s)
        head := (a.head + 2) % a.ring.length } := by
  have hlow := stores_byte h (by omega) (lowByte s)
  have hhigh := stores_byte hlow.inRange (by
    rw [hlow.length_contents, hlow.cap_eq, List.length_singleton]
    omega) (highByte s)
  have hboth := hlow.trans hhigh
  simp only [List.length_set, Nat.mod_add_mod] at hboth
  exact hboth

/-!
## The resampler
-/

section Resampler

variable {rnd : Rat -> Rat}

/-- The samples that one input sample is resampled to, ring space aside, and the
fraction left over. -/
def outputs (rnd : Rat -> Rat) (ratio : Rat) (rPrev sCur : Sample) :
    Nat -> Rat -> List Sample × Rat
  | 0, t => ([], t)
  | fuel + 1, t =>
      if t < 1 then
        let (rest, last) := outputs rnd ratio rPrev sCur fuel (rnd (t + ratio))
        (resampleOut rnd rPrev sCur t :: rest, last)
      else
        ([], t)

/-- Fuel suffices: every round adds at least a half. -/
def Enough (fuel : Nat) (t : Rat) : Prop :=
  0 ≤ t ∧ (3 ≤ fuel ∨ (2 ≤ fuel ∧ 1 / 2 ≤ t) ∨ (1 ≤ fuel ∧ 1 ≤ t))

theorem Enough.next (hrnd : F32.Rounding rnd) {ratio t : Rat} {fuel : Nat}
    (hratio : 1 / 2 ≤ ratio) (h : Enough (fuel + 1) t) (ht : t < 1) :
    Enough fuel (rnd (t + ratio)) := by
  rcases h with ⟨hnonneg, hfuel⟩
  have hhalf : 1 / 2 ≤ rnd (t + ratio) := hrnd.half_le (by linarith)
  refine ⟨by linarith, ?_⟩
  rcases hfuel with hthree | ⟨htwo, hge⟩ | ⟨_, hone⟩
  · exact Or.inr (Or.inl ⟨by omega, hhalf⟩)
  · exact Or.inr (Or.inr ⟨by omega, hrnd.one_le (by linarith)⟩)
  · exact absurd hone (not_le.mpr ht)

/-- The inner loop writes a prefix of the resampled outputs, whole samples only,
and all of them unless the ring has no room for the next one. -/
theorem resampleLoop_eq (hrnd : F32.Rounding rnd) {ratio : Rat}
    (hratio : 1 / 2 ≤ ratio) (sCur : Sample) (fuel : Nat) {t : Rat}
    {a : AudioOutput} (h : InRange a) (henough : Enough fuel t) :
    exists t' full a' k,
      resampleLoop rnd ratio sCur fuel t a = .ok (t', full, a') ∧ 0 ≤ t' ∧
        Stores (((outputs rnd ratio a.rPrev sCur fuel t).1.take k).flatMap
          bytesOf) a a' ∧
        (full = false ->
          k = (outputs rnd ratio a.rPrev sCur fuel t).1.length ∧
            t' = (outputs rnd ratio a.rPrev sCur fuel t).2) ∧
        (full = true ->
          k < (outputs rnd ratio a.rPrev sCur fuel t).1.length ∧
            a'.ring.length - 1 - a'.contents.length < 2) := by
  induction fuel generalizing t a with
  | zero =>
      rcases henough with ⟨_, hfuel⟩
      omega
  | succ fuel ih =>
      unfold resampleLoop outputs
      by_cases ht : t < 1
      · simp only [if_pos ht]
        rw [h.space_eq, ok_bind]
        by_cases hfull : a.ring.length - 1 - a.contents.length < 2
        · rw [if_pos hfull]
          exact ⟨t, true, a, 0, rfl, henough.1, by simpa using Stores.refl h,
            (fun hcontra => by cases hcontra), fun _ => ⟨Nat.succ_pos _, hfull⟩⟩
        · rw [if_neg hfull]
          have hsample := stores_sample h (by omega)
            (resampleOut rnd a.rPrev sCur t)
          rcases ih hsample.inRange (henough.next hrnd hratio ht) with
            ⟨t', full, a', k, hloop, hnonneg, hstores, hdone, hfulls⟩
          refine ⟨t', full, a', k + 1, ?_, hnonneg, hsample.trans hstores, ?_, ?_⟩
          · unfold cap
            rw [store_of_lt _ h.head_lt, ok_bind, rem_of_pos h.cap_pos,
              ok_bind, store_of_lt _ (by
                rw [List.length_set]
                exact Nat.mod_lt _ h.cap_pos), ok_bind,
              rem_of_pos h.cap_pos, ok_bind]
            exact hloop
          · intro hnotFull
            rcases hdone hnotFull with ⟨hk, ht'⟩
            exact ⟨congrArg (· + 1) hk, ht'⟩
          · intro hisFull
            rcases hfulls hisFull with ⟨hk, hroom⟩
            exact ⟨Nat.succ_lt_succ hk, hroom⟩
      · simp only [if_neg ht]
        exact ⟨t, false, a, 0, rfl, henough.1, by simpa using Stores.refl h,
          fun _ => ⟨rfl, rfl⟩, fun hcontra => by cases hcontra⟩

def blockOutputs (rnd : Rat -> Rat) (ratio : Rat) :
    List Sample -> Rat -> Sample -> List Sample
  | [], _, _ => []
  | sCur :: rest, rFrac, rPrev =>
      let (outs, t) := outputs rnd ratio rPrev sCur 3 rFrac
      outs ++ blockOutputs rnd ratio rest
        (if 1 ≤ t then rnd (t - 1) else t) sCur

theorem resampleBlock_eq (hrnd : F32.Rounding rnd) {ratio : Rat}
    (hratio : 1 / 2 ≤ ratio) (block : List Sample) {a : AudioOutput}
    (h : InRange a) (hfrac : 0 ≤ a.rFrac) :
    exists a',
      resampleBlock rnd ratio block a = .ok a' ∧ 0 ≤ a'.rFrac ∧
        Stores (((blockOutputs rnd ratio block a.rFrac a.rPrev).take
          ((a.ring.length - 1 - a.contents.length) / 2)).flatMap bytesOf) a a' := by
  induction block generalizing a with
  | nil => exact ⟨a, rfl, hfrac, by simpa [blockOutputs] using Stores.refl h⟩
  | cons sCur rest ih =>
      rcases resampleLoop_eq hrnd hratio sCur 3 h
          ⟨hfrac, Or.inl (Nat.le_refl _)⟩ with
        ⟨t, full, a1, k, hloop, hnonneg, hstores, hdone, hfulls⟩
      have hfrac1 : 0 ≤ if 1 ≤ t then rnd (t - 1) else t := by
        split
        · exact hrnd.nonneg (by linarith)
        · exact hnonneg
      have hstores1 := hstores.resampler (if 1 ≤ t then rnd (t - 1) else t) sCur
      have hlen := hstores.length_contents
      have hlt := hstores.inRange.length_contents_lt
      rw [length_flatMap_bytesOf, List.length_take] at hlen
      rw [hstores.cap_eq] at hlt
      unfold resampleBlock blockOutputs
      rw [hloop]
      simp only [ok_bind]
      cases full with
      | true =>
          -- what was written is a part of these outputs, and leaves no room for another sample
          rcases hfulls rfl with ⟨hk, hroom⟩
          rw [hstores.cap_eq] at hroom
          have hroomFor : (a.ring.length - 1 - a.contents.length) / 2 = k := by omega
          refine ⟨_, rfl, hfrac1, ?_⟩
          rw [hroomFor, List.take_append_of_le_length (Nat.le_of_lt hk)]
          exact hstores1
      | false =>
          rcases hdone rfl with ⟨hk, ht⟩
          rcases ih hstores1.inRange hfrac1 with ⟨a', hrest, hpos, hrun⟩
          refine ⟨a', hrest, hpos, ?_⟩
          have hroomFor : (a.ring.length - 1 - a.contents.length) / 2 =
              k + (a1.ring.length - 1 - a1.contents.length) / 2 := by
            rw [hstores.cap_eq]
            omega
          have hall := hstores1.trans hrun
          rw [hk, List.take_length, ← List.flatMap_append] at hall
          rw [hroomFor, hk, List.take_length_add_append, ← ht]
          exact hall

theorem half_le_ratio (hrnd : F32.Rounding rnd) {rate : UInt32}
    (h : 8000 ≤ rate) : 1 / 2 ≤ ratio rnd rate := by
  apply hrnd.half_le
  have hnat : 8000 ≤ rate.toNat := UInt32.le_iff_toNat_le.mp h
  have hcast : (8000 : Rat) ≤ (rate.toNat : Rat) := by exact_mod_cast hnat
  have hspk : Config.spkSampleRate.toNat = 16000 := rfl
  rw [hspk, le_div_iff₀ (by norm_num)]
  norm_num
  linarith

end Resampler

/-!
## Feeding a block
-/

structure Sound (a : AudioOutput) : Prop extends InRange a where
  rate_ge : 8000 ≤ a.inRate
  frac_nonneg : 0 ≤ a.rFrac

/-- The answer to feeding a block and the bytes that it stores: none, as much of the block
as there is room for, or as many whole resampled samples. -/
inductive Fed (rnd : Rat -> Rat) (mono16 : List UInt8) (a : AudioOutput) :
    Nat -> List UInt8 -> Prop where
  | ignored (h : mono16 = [] ∨ a.streaming = false) : Fed rnd mono16 a 0 []
  | passThrough (hstream : a.streaming = true)
      (h : a.inRate = Config.spkSampleRate) :
      Fed rnd mono16 a (min mono16.length (a.ring.length - 1 - a.contents.length))
        (mono16.take (a.ring.length - 1 - a.contents.length))
  | resampled (hstream : a.streaming = true)
      (h : a.inRate ≠ Config.spkSampleRate) :
      Fed rnd mono16 a (mono16.length / 2 * 2)
        (((blockOutputs rnd (ratio rnd a.inRate) (samplesOf mono16) a.rFrac
          a.rPrev).take ((a.ring.length - 1 - a.contents.length) / 2)).flatMap bytesOf)

theorem feed_eq {rnd : Rat -> Rat} (hrnd : F32.Rounding rnd)
    (mono16 : List UInt8) {a : AudioOutput} (h : Sound a) :
    exists n a' stored,
      feed rnd mono16 a = .ok (n, a') ∧ Fed rnd mono16 a n stored ∧
        Stores stored a a' ∧ Sound a' := by
  have hne := h.ring_ne_nil
  unfold feed
  by_cases hskip : a.ring = [] ∨ mono16 = [] ∨ (!a.streaming) = true
  · rw [if_pos hskip]
    refine ⟨0, a, [], rfl, Fed.ignored ?_, Stores.refl h.toInRange, h⟩
    rcases hskip with hring | hempty | hstopped
    · exact absurd hring hne
    · exact Or.inl hempty
    · exact Or.inr (by simpa using hstopped)
  · rw [if_neg hskip]
    have hstream : a.streaming = true := by
      cases hcontra : a.streaming with
      | true => rfl
      | false => exact absurd (Or.inr (Or.inr (by simp [hcontra]))) hskip
    by_cases hrate : a.inRate = Config.spkSampleRate
    · rw [if_pos hrate, h.space_eq, ok_bind]
      have hlt := h.length_contents_lt
      have htake : mono16.take
          (min mono16.length (a.ring.length - 1 - a.contents.length)) =
            mono16.take (a.ring.length - 1 - a.contents.length) := by
        rw [Nat.min_comm, ← List.take_eq_take_min]
      rcases feedBytes_eq h.toInRange
          (mono16.take (a.ring.length - 1 - a.contents.length)) (by
            rw [List.length_take]
            omega) with ⟨a', hfeed, hstores⟩
      refine ⟨min mono16.length (a.ring.length - 1 - a.contents.length), a', _,
        ?_, Fed.passThrough hstream hrate, hstores, hstores.inRange, ?_, ?_⟩
      · simp only [htake, hfeed, ok_bind]
        rfl
      · rw [hstores.inRate]
        exact h.rate_ge
      · have hfrac : a'.rFrac = a.rFrac := feedBytes_rFrac hfeed
        rw [hfrac]
        exact h.frac_nonneg
    · rw [if_neg hrate]
      rcases resampleBlock_eq hrnd (half_le_ratio hrnd h.rate_ge)
          (samplesOf mono16) h.toInRange h.frac_nonneg with
        ⟨a', hresample, hfrac, hstores⟩
      refine ⟨mono16.length / 2 * 2, a', _, ?_, Fed.resampled hstream hrate, hstores,
        hstores.inRange, ?_, hfrac⟩
      · rw [hresample, ok_bind]
        rfl
      · rw [hstores.inRate]
        exact h.rate_ge

/-!
## Draining
-/

structure Takes (taken : List Sample) (a a' : AudioOutput) : Prop where
  inRange : InRange a'
  contents_eq : a.contents = taken.flatMap bytesOf ++ a'.contents
  frame : a' = { a with tail := a'.tail }

theorem bytesOf_sampleOfBytes (lo hi : UInt8) :
    bytesOf (sampleOfBytes lo hi) = [lo, hi] := by
  have hlow : lowByte (sampleOfBytes lo hi) = lo :=
    UInt8.toBitVec_inj.mp BitVec.extractLsb'_append_eq_right
  have hhigh : highByte (sampleOfBytes lo hi) = hi :=
    UInt8.toBitVec_inj.mp BitVec.extractLsb'_append_eq_left
  rw [bytesOf, hlow, hhigh]

section Filling

variable (rnd : Rat -> Rat)

def encodeSamples (volume : Int) (taken : List Sample) : List UInt8 :=
  taken.flatMap fun s => toLeBytes (applyVolumeCurve rnd s volume)

theorem length_encodeSamples (volume : Int) (taken : List Sample) :
    (encodeSamples rnd volume taken).length = sampleBytes * taken.length := by
  induction taken with
  | nil => rfl
  | cons s taken ih =>
      unfold encodeSamples at ih ⊢
      rw [List.flatMap_cons, List.length_append, ih, List.length_cons]
      change 4 + 4 * taken.length = 4 * (taken.length + 1)
      omega

theorem fillLoop_eq {cells : List UInt8} {head tail : Nat}
    (hhead : head < cells.length) (htail : tail < cells.length)
    (volume : Int) {n : Nat} (out : List UInt8)
    (hn : 2 * n ≤ Ring.count cells.length head tail) :
    exists tail' taken,
      fillLoop rnd cells volume n tail out =
        .ok (tail', out ++ encodeSamples rnd volume taken) ∧
        taken.length = n ∧ tail' < cells.length ∧
        Ring.contents cells head tail =
          taken.flatMap bytesOf ++ Ring.contents cells head tail' := by
  induction n generalizing tail out with
  | zero => exact ⟨tail, [], by simp [fillLoop, encodeSamples], rfl, htail, rfl⟩
  | succ n ih =>
      have hpos : 0 < cells.length := by omega
      rcases Ring.contents_pop hhead htail (by omega) with ⟨lo, hlo, hfirst⟩
      have hsucc := Ring.count_tail_succ hhead htail (by omega)
      have htail1 : (tail + 1) % cells.length < cells.length :=
        Nat.mod_lt _ hpos
      rcases Ring.contents_pop hhead htail1 (by omega) with
        ⟨hi, hhi, hsecond⟩
      have hsucc2 := Ring.count_tail_succ hhead htail1 (by omega)
      have htwo : ((tail + 1) % cells.length + 1) % cells.length =
          (tail + 2) % cells.length := Nat.mod_add_mod _ _ _
      rw [htwo] at hsecond hsucc2
      have htail2 : (tail + 2) % cells.length < cells.length :=
        Nat.mod_lt _ hpos
      rcases ih htail2
          (out ++ toLeBytes
            (applyVolumeCurve rnd (sampleOfBytes lo hi) volume))
          (by omega) with ⟨tail', taken, hloop, hlen, hlt, hcontents⟩
      refine ⟨tail', sampleOfBytes lo hi :: taken, ?_, ?_, hlt, ?_⟩
      · unfold fillLoop
        rw [index_of_getElem? hlo, ok_bind, rem_of_pos hpos, ok_bind,
          index_of_getElem? hhi, ok_bind, rem_of_pos hpos, ok_bind, hloop]
        simp [encodeSamples]
      · rw [List.length_cons, hlen]
      · rw [hfirst, hsecond, hcontents, List.flatMap_cons,
          bytesOf_sampleOfBytes]
        rfl

def queued (volume : Int) (outLen : Nat) (taken : List Sample) : Pushed :=
  { bytes := encodeSamples rnd volume taken ++
      List.replicate (outLen - sampleBytes * taken.length) 0
    audio := sampleBytes * taken.length }

theorem fillFromRing_eq {a : AudioOutput} (h : InRange a) (outLen : Nat) :
    exists tail' taken,
      fillFromRing rnd a.ring a.head a.tail a.volume outLen =
        .ok (tail', encodeSamples rnd a.volume taken) ∧
        taken.length = min (a.contents.length / 2) (outLen / sampleBytes) ∧
        Takes taken a { a with tail := tail' } := by
  have hhead := h.head_lt
  have htail := h.tail_lt
  have hcount := h.length_contents
  rcases fillLoop_eq rnd hhead htail a.volume
      (n := min (a.contents.length / 2) (outLen / sampleBytes)) []
      (by rw [← hcount]; omega) with ⟨tail', taken, hloop, hlen, hlt, hcontents⟩
  refine ⟨tail', taken, ?_, hlen, ⟨hhead, hlt⟩, hcontents, rfl⟩
  unfold fillFromRing
  rw [if_neg h.ring_ne_nil, sub_of_le (by omega), ok_bind, rem_of_pos h.cap_pos, ok_bind]
  change fillLoop rnd a.ring a.volume
    (min (Ring.count a.ring.length a.head a.tail / 2) (outLen / sampleBytes))
    a.tail [] = _
  rw [← hcount, hloop, List.nil_append]

theorem fillSlice_eq {a : AudioOutput} (h : InRange a) (outLen : Nat) :
    exists taken a',
      fillSlice rnd outLen a = .ok (queued rnd a.volume outLen taken, a') ∧
        taken.length = min (a.contents.length / 2) (outLen / sampleBytes) ∧
        Takes taken a a' := by
  rcases fillFromRing_eq rnd h outLen with ⟨tail', taken, hfill, hlen, htakes⟩
  refine ⟨taken, { a with tail := tail' }, ?_, hlen, htakes⟩
  unfold fillSlice
  rw [hfill, ok_bind]
  simp only [queued, length_encodeSamples]
  rfl

end Filling

end AudioOutput
end TWA
