import TWA.AudioOutput.Pump

/-!
# Tones

`play_tone` writes a tone in rounds.  Every round fills a fresh stream buffer as
far as it goes, starts it and waits until it has been played.  A `usize` has 32
bits on the target and its arithmetic wraps.  The sine function comes from
another library and is a parameter.
-/

namespace TWA

open Foundation
open Foundation.Exec

namespace AudioOutput

structure ToneRound where
  /-- Length of the slice that the fresh stream buffer offers. -/
  outLen : Nat
  startOk : Bool
  deriving DecidableEq, Repr

def piF32 : Rat := 13176795 / 4194304

section Model

variable (rnd sinf : Rat -> Rat)

/-- Fade-in and fade-out over 160 samples.  In a tone shorter than that the
subtraction wraps, and nothing is faded out. -/
def toneEnv (n idx : UInt32) : Rat :=
  let env : Rat := 1
  let env := if idx < 160 then rnd (rnd idx.toNat / 160) else env
  if idx > n - 160 then rnd (rnd (n - idx).toNat / 160) else env

def toneSample (freqHz n : UInt32) (volume : Int) (idx : UInt32) : BitVec 32 :=
  let t := rnd (rnd idx.toNat / rnd Config.spkSampleRate.toNat)
  let phase := rnd (rnd (rnd (2 * piF32) * rnd freqHz.toNat) * t)
  let smp := rnd (rnd (sinf phase * 2600) * toneEnv rnd n idx)
  applyVolumeCurve rnd (BitVec.ofInt 16 (F32.toI16 smp)) volume

def fillTone (freqHz n : UInt32) (volume : Int) : Nat -> UInt32 -> List UInt8
  | 0, _ => []
  | k + 1, idx =>
      if idx ≥ n then
        []
      else
        toLeBytes (toneSample rnd sinf freqHz n volume idx) ++
          fillTone freqHz n volume k (idx + 1)

/-- The rounds of a tone, from sample `i` on; the answer is what each round hands to
the DMA.  Every round but a last one makes at least one sample. -/
def toneRounds (hw : Nat -> ToneRound) (freqHz n : UInt32) :
    Nat -> Nat -> UInt32 -> AudioOutput -> Exec (List (List UInt8) × AudioOutput)
  | 0, _, _, _ => .error .diverges
  | fuel + 1, round, i, a =>
      if i < n then
        match a.tx with
        | none => pure ([], a)
        | some tx =>
            match a.stream with
            | none => pure ([], { a with tx := some tx })
            | some stream => do
                let a := { a with tx := none, stream := none }
                let bytes := fillTone rnd sinf freqHz n a.volume
                  ((hw round).outLen / sampleBytes) i
                let made := bytes.length / sampleBytes
                let a := { a with tx := some tx, stream := some stream }
                if made = 0 then
                  pure ([], a)
                else if (hw round).startOk then
                  let (rest, a) <- toneRounds hw freqHz n fuel (round + 1)
                    (i + UInt32.ofNat made) a
                  pure (bytes :: rest, a)
                else
                  pure ([], a)
      else
        pure ([], a)

def playTone (hw : Nat -> ToneRound) (freqHz durationMs : UInt32) (a : AudioOutput) :
    Exec (List (List UInt8) × AudioOutput) :=
  if a.tx = none ∨ a.stream = none then
    pure ([], a)
  else
    let a := reclaim a
    let n := Config.spkSampleRate * durationMs / 1000
    toneRounds rnd sinf hw freqHz n (n.toNat + 1) 0 0 a

end Model

/-! ## One slice -/

section Slice

variable {rnd sinf : Rat -> Rat} {freqHz n : UInt32} {volume : Int}

def toneSegment (rnd sinf : Rat -> Rat) (freqHz n : UInt32) (volume : Int)
    (first count : Nat) : List UInt8 :=
  (List.range' first count).flatMap fun idx =>
    toLeBytes (toneSample rnd sinf freqHz n volume (UInt32.ofNat idx))

theorem length_toneSegment (first count : Nat) :
    (toneSegment rnd sinf freqHz n volume first count).length = sampleBytes * count := by
  unfold toneSegment
  rw [List.length_flatMap]
  simp [toLeBytes, sampleBytes, Nat.mul_comm]

theorem toneSegment_append (first count more : Nat) :
    toneSegment rnd sinf freqHz n volume first count ++
        toneSegment rnd sinf freqHz n volume (first + count) more =
      toneSegment rnd sinf freqHz n volume first (count + more) := by
  unfold toneSegment
  rw [← List.flatMap_append, List.range'_append_1]

theorem toNat_succ_of_lt {idx : UInt32} (h : idx < n) :
    (idx + 1).toNat = idx.toNat + 1 := by
  have hlt := UInt32.lt_iff_toNat_lt.mp h
  have hn := n.toNat_lt
  have hone : (1 : UInt32).toNat = 1 := rfl
  rw [UInt32.toNat_add, hone]
  omega

theorem fillTone_eq (k : Nat) {idx : UInt32} (h : idx ≤ n) :
    fillTone rnd sinf freqHz n volume k idx =
      toneSegment rnd sinf freqHz n volume idx.toNat (min k (n.toNat - idx.toNat)) := by
  induction k generalizing idx with
  | zero => simp [fillTone, toneSegment]
  | succ k ih =>
      have hle := UInt32.le_iff_toNat_le.mp h
      unfold fillTone
      by_cases hlt : idx < n
      · have hnat := UInt32.lt_iff_toNat_lt.mp hlt
        have hsucc := toNat_succ_of_lt hlt
        have hnext : idx + 1 ≤ n := by
          rw [UInt32.le_iff_toNat_le, hsucc]
          omega
        have hfirst : toLeBytes (toneSample rnd sinf freqHz n volume idx) =
            toneSegment rnd sinf freqHz n volume idx.toNat 1 := by
          simp [toneSegment]
        rw [if_neg (by simpa using hlt), ih hnext, hsucc, hfirst, toneSegment_append]
        congr 1
        omega
      · have hge : n.toNat ≤ idx.toNat := by
          simpa [UInt32.le_iff_toNat_le] using hlt
        rw [if_pos (by simpa using hlt), Nat.sub_eq_zero_of_le hge, Nat.min_zero]
        rfl

end Slice

/-! ## All rounds -/

section Rounds

variable {rnd sinf : Rat -> Rat} {hw : Nat -> ToneRound} {freqHz n : UInt32}

def roundMade (r : ToneRound) (n i : UInt32) : Nat :=
  min (r.outLen / sampleBytes) (n.toNat - i.toNat)

theorem roundMade_le (r : ToneRound) (n i : UInt32) : roundMade r n i ≤ n.toNat - i.toNat :=
  Nat.min_le_right _ _

theorem toNat_add_made (r : ToneRound) {i : UInt32} (h : i ≤ n) :
    (i + UInt32.ofNat (roundMade r n i)).toNat = i.toNat + roundMade r n i := by
  have hle := UInt32.le_iff_toNat_le.mp h
  have hn := n.toNat_lt
  have hmade := roundMade_le r n i
  rw [UInt32.toNat_add, UInt32.toNat_ofNat']
  omega

theorem add_made_le (r : ToneRound) {i : UInt32} (h : i ≤ n) :
    i + UInt32.ofNat (roundMade r n i) ≤ n := by
  have hle := UInt32.le_iff_toNat_le.mp h
  have hmade := roundMade_le r n i
  rw [UInt32.le_iff_toNat_le, toNat_add_made r h]
  omega

theorem toneRounds_succ {a : AudioOutput} (fuel round : Nat) {i : UInt32} (h : i < n)
    (htx : a.tx ≠ none) (hstream : a.stream ≠ none) :
    toneRounds rnd sinf hw freqHz n (fuel + 1) round i a =
      if roundMade (hw round) n i = 0 ∨ (hw round).startOk = false then
        pure ([], a)
      else (do
        let (rest, a') <- toneRounds rnd sinf hw freqHz n fuel (round + 1)
          (i + UInt32.ofNat (roundMade (hw round) n i)) a
        pure (toneSegment rnd sinf freqHz n a.volume i.toNat
          (roundMade (hw round) n i) :: rest, a')) := by
  rcases Option.ne_none_iff_exists'.mp htx with ⟨tx, htx⟩
  rcases Option.ne_none_iff_exists'.mp hstream with ⟨stream, hstream⟩
  have hback : { a with tx := some tx, stream := some stream } = a := by
    rw [← htx, ← hstream]
  have hpos : 0 < sampleBytes := by decide
  conv_lhs => unfold toneRounds
  simp only [if_pos h, htx, hstream, fillTone_eq _ (UInt32.le_of_lt h),
    length_toneSegment, hback, Nat.mul_div_cancel_left _ hpos]
  rw [← roundMade]
  by_cases hmade : roundMade (hw round) n i = 0
  · simp [hmade]
  · cases hstart : (hw round).startOk with
    | false => simp [hmade]
    | true => simp [hmade]

theorem toneRounds_ok (fuel round : Nat) {i : UInt32} (a : AudioOutput) (h : i ≤ n)
    (hfuel : n.toNat - i.toNat < fuel) :
    exists handed, toneRounds rnd sinf hw freqHz n fuel round i a = .ok (handed, a) := by
  induction fuel generalizing round i with
  | zero => omega
  | succ fuel ih =>
      by_cases hlt : i < n
      · by_cases hhome : a.tx ≠ none ∧ a.stream ≠ none
        · rw [toneRounds_succ fuel round hlt hhome.1 hhome.2]
          split
          · exact ⟨[], rfl⟩
          · rename_i hgoes
            have hmade : roundMade (hw round) n i ≠ 0 := fun hzero => hgoes (Or.inl hzero)
            have hnat := UInt32.lt_iff_toNat_lt.mp hlt
            have hsum := toNat_add_made (hw round) h
            rcases ih (round + 1) (add_made_le (hw round) h) (by omega) with
              ⟨rest, hrest⟩
            rw [hrest]
            exact ⟨_, rfl⟩
        · unfold toneRounds
          rw [if_pos hlt]
          cases htx : a.tx with
          | none => exact ⟨[], rfl⟩
          | some tx =>
              have hstream : a.stream = none := by
                by_contra hcontra
                exact hhome ⟨by simp [htx], hcontra⟩
              have hback : { a with tx := some tx } = a := by rw [← htx]
              rw [hstream] at hback
              simp only [hstream, hback]
              exact ⟨[], rfl⟩
      · unfold toneRounds
        rw [if_neg hlt]
        exact ⟨[], rfl⟩

/-- If every round starts and offers room for a sample, the rounds hand over all samples
that are left, in order. -/
theorem toneRounds_all {a : AudioOutput}
    (hhw : forall k, (hw k).startOk = true ∧ sampleBytes ≤ (hw k).outLen)
    (fuel round : Nat) {i : UInt32} (h : i ≤ n) (hfuel : n.toNat - i.toNat < fuel)
    (htx : a.tx ≠ none) (hstream : a.stream ≠ none) :
    exists handed, toneRounds rnd sinf hw freqHz n fuel round i a = .ok (handed, a) ∧
      handed.flatten =
        toneSegment rnd sinf freqHz n a.volume i.toNat (n.toNat - i.toNat) := by
  induction fuel generalizing round i with
  | zero => omega
  | succ fuel ih =>
      by_cases hlt : i < n
      · have hnat := UInt32.lt_iff_toNat_lt.mp hlt
        have hroom : 1 ≤ (hw round).outLen / sampleBytes :=
          (Nat.one_le_div_iff (by decide)).mpr (hhw round).2
        have hmade : 1 ≤ roundMade (hw round) n i :=
          Nat.le_min.mpr ⟨hroom, by omega⟩
        have hle := roundMade_le (hw round) n i
        have hsum := toNat_add_made (hw round) h
        rcases ih (round + 1) (add_made_le (hw round) h) (by omega) with
          ⟨rest, hrest, hflat⟩
        rw [toneRounds_succ fuel round hlt htx hstream, if_neg (by simp [(hhw round).1]; omega),
          hrest]
        refine ⟨_, rfl, ?_⟩
        rw [List.flatten_cons, hflat, hsum, toneSegment_append]
        congr 1
        omega
      · have hge : n.toNat ≤ i.toNat := by
          simpa [UInt32.le_iff_toNat_le] using hlt
        unfold toneRounds
        rw [if_neg hlt, Nat.sub_eq_zero_of_le hge]
        exact ⟨[], rfl, rfl⟩

/-- Whatever its rounds do, a tone gives its handles back; with one of them missing it
does nothing. -/
theorem playTone_ok (rnd sinf : Rat -> Rat) (hw : Nat -> ToneRound)
    (freqHz durationMs : UInt32) (a : AudioOutput) :
    exists handed, playTone rnd sinf hw freqHz durationMs a =
      .ok (handed, if a.tx = none ∨ a.stream = none then a else reclaim a) := by
  unfold playTone
  split
  · exact ⟨[], rfl⟩
  · exact toneRounds_ok _ 0 (reclaim a) (UInt32.le_iff_toNat_le.mpr (Nat.zero_le _))
      (Nat.lt_succ_of_le (Nat.sub_le _ _))

end Rounds

end AudioOutput
end TWA
