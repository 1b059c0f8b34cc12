import TWA.AudioOutput.Consistency

/-!
# Which tones are played

A tone is refused while a transfer is in flight, since its handles are looked for
before the transfer is stopped.  From any other state it is played in full, as long
as the number of its samples can be computed in 32 bits.
-/

namespace TWA

open Foundation
open Foundation.Exec

namespace AudioOutput

section Delivery

variable (rnd sinf : Rat -> Rat)

def toneBytes (freqHz : UInt32) (n : Nat) (volume : Int) : List UInt8 :=
  toneSegment rnd sinf freqHz (UInt32.ofNat n) volume 0 n

/-- The whole tone has been handed over, nothing is in flight, and nothing else has
changed. -/
structure PlaysTone (freqHz durationMs : UInt32) (handed : List (List UInt8))
    (a a' : AudioOutput) : Prop where
  handed_eq : handed.flatten =
    toneBytes rnd sinf freqHz (16000 * durationMs.toNat / 1000) a.volume
  xfer : a'.xfer = none
  tx : a'.tx ≠ none
  stream : a'.stream ≠ none
  contents_eq : a'.contents = a.contents

end Delivery

variable {sinf : Rat -> Rat} {hw : Nat -> ToneRound} {freqHz durationMs : UInt32}
  {a : AudioOutput}

theorem toneLength_toNat (durationMs : UInt32) :
    (Config.spkSampleRate * durationMs / 1000).toNat =
      16000 * durationMs.toNat % 2 ^ 32 / 1000 := by
  rw [UInt32.toNat_div, UInt32.toNat_mul]
  rfl

theorem Owned.home (h : Owned a) (hxfer : a.xfer = none) :
    a.xfer = none ∧ a.tx ≠ none ∧ a.stream ≠ none := by
  rcases h with ⟨hsome, _⟩ | hhome
  · exact absurd hxfer hsome
  · exact hhome

theorem playTone_home (rnd sinf : Rat -> Rat) (freqHz durationMs : UInt32)
    (hhome : a.xfer = none ∧ a.tx ≠ none ∧ a.stream ≠ none)
    (hhw : forall k, (hw k).startOk = true ∧ sampleBytes ≤ (hw k).outLen) :
    exists handed, playTone rnd sinf hw freqHz durationMs a = .ok (handed, a) ∧
      handed.flatten =
        toneBytes rnd sinf freqHz (16000 * durationMs.toNat % 2 ^ 32 / 1000) a.volume := by
  have hn := toneLength_toNat durationMs
  unfold playTone toneBytes
  rw [if_neg (by simp [hhome.2.1, hhome.2.2]), reclaim_of_none hhome.1, ← hn,
    UInt32.ofNat_toNat]
  exact toneRounds_all hhw _ 0 (UInt32.le_iff_toNat_le.mpr (Nat.zero_le _))
    (Nat.lt_succ_of_le (Nat.sub_le _ _)) hhome.2.1 hhome.2.2

/-- A tone is played in full exactly if no transfer is in flight and the product of rate
and duration fits into 32 bits. -/
theorem tone_played_iff (h : Reachable Fresh (UseStep F32.round sinf) a)
    (hhw : forall k, (hw k).startOk = true ∧ sampleBytes ≤ (hw k).outLen) :
    (exists handed a', playTone F32.round sinf hw freqHz durationMs a = .ok (handed, a') ∧
        PlaysTone F32.round sinf freqHz durationMs handed a a') <->
      a.xfer = none ∧ 16000 * durationMs.toNat < 2 ^ 32 := by
  have howned := reachable_owned F32.rounding_round h
  constructor
  · intro hplayed
    rcases hplayed with ⟨handed, a', htone, hplays⟩
    have hsame := playTone_frame howned htone
    have hxfer : a.xfer = none := by
      rw [← hsame]
      exact hplays.xfer
    refine ⟨hxfer, ?_⟩
    have hhome := howned.home hxfer
    rcases playTone_home F32.round sinf freqHz durationMs hhome hhw with ⟨handed', htone', hflat⟩
    rw [htone, Except.ok.injEq, Prod.mk.injEq] at htone'
    rw [← htone'.1, hplays.handed_eq] at hflat
    have hlen := congrArg List.length hflat
    unfold toneBytes at hlen
    rw [length_toneSegment, length_toneSegment] at hlen
    have hcount := Nat.eq_of_mul_eq_mul_left (show 0 < sampleBytes by decide) hlen
    omega
  · intro hfits
    rcases hfits with ⟨hxfer, hfits⟩
    have hhome := howned.home hxfer
    rcases playTone_home F32.round sinf freqHz durationMs hhome hhw with ⟨handed, htone, hflat⟩
    rw [Nat.mod_eq_of_lt hfits] at hflat
    exact ⟨handed, a, htone, hflat, hhome.1, hhome.2.1, hhome.2.2, rfl⟩

/-- The tone of a volume key after a playback that was stopped, in four rounds. -/
theorem tone_played_iff_stopped :
    exists a, Reachable Fresh (UseStep F32.round id) a ∧ a.started = true ∧
      exists handed a',
        playTone F32.round id (fun _ => ⟨1024, true⟩) 1800 60 (stopPlayback a) =
            .ok (handed, a') ∧
          PlaysTone F32.round id 1800 60 handed (stopPlayback a) a' := by
  rcases reachable_in_flight id with ⟨a, hreach, hsome⟩
  have hplayed := ((reachable_orderly F32.rounding_round hreach).flags.playing hsome).2
  have hany : Reachable Fresh (UseStep F32.round id) a := by
    rcases hreach with ⟨s, us, hinit, hrun⟩
    exact ⟨s, us, hinit.1, hrun⟩
  have hstopped : Reachable Fresh (UseStep F32.round id) (stopPlayback a) :=
    hany.step_trans (l := .operation .stopPlayback) rfl
  exact ⟨a, hany, hplayed, (tone_played_iff hstopped (fun _ => ⟨rfl, by decide⟩)).mpr
    ⟨reclaim_xfer a, by decide⟩⟩

/-- The tone of a volume key while a transfer is in flight: nothing is handed over and
the transfer goes on. -/
theorem tone_refused_in_flight :
    exists a, Reachable Fresh (UseStep F32.round id) a ∧ a.xfer ≠ none ∧
      playTone F32.round id (fun _ => ⟨16384, true⟩) 1800 60 a = .ok ([], a) ∧
      ¬ exists handed a',
        playTone F32.round id (fun _ => ⟨16384, true⟩) 1800 60 a = .ok (handed, a') ∧
          PlaysTone F32.round id 1800 60 handed a a' := by
  rcases reachable_in_flight id with ⟨a, hreach, hsome⟩
  have hany : Reachable Fresh (UseStep F32.round id) a := by
    rcases hreach with ⟨s, us, hinit, hrun⟩
    exact ⟨s, us, hinit.1, hrun⟩
  have howned := reachable_owned F32.rounding_round hany
  have hrefused : playTone F32.round id (fun _ => ⟨16384, true⟩) 1800 60 a =
      .ok ([], a) := by
    rcases howned with ⟨_, htx, _⟩ | ⟨hnone, _⟩
    · unfold playTone
      rw [if_pos (Or.inl htx)]
      rfl
    · exact absurd hnone hsome
  refine ⟨a, hany, hsome, hrefused, fun hclaim => ?_⟩
  rcases hclaim with ⟨handed, a', htone, hplays⟩
  rw [playTone_frame howned htone] at hplays
  exact hsome hplays.xfer

end AudioOutput
end TWA
