import TWA.Battery
import TWA.Foundation.Runs
import TWA.Render.Painting

/-!
# The key of the bar

The fields of the key lie next to each other, so that the key determines the
content of the bar.  The content is what the bar shows besides its background; the
pixels depend on nothing else.
-/

namespace TWA

open Foundation
open Foundation.Pixels
open Display (DisplayState)
open Screen (screenW)

/-- The values that the setters allow for the volume and that the battery reports. -/
structure Display.InRange (d : Display) : Prop where
  volume_nonneg : 0 ≤ d.volume
  volume_le : d.volume ≤ 100
  battery_le : forall v, d.battLevel = some v -> v.toNat ≤ 100

namespace Render

/-! ## The key as a sum -/

def stateCode : DisplayState -> Nat
  | .idle => 0
  | .listening => 1
  | .playing => 2
  | .offline => 3

def clockCode : Option (Nat × Nat) -> Nat
  | some (h, m) => (h * 60 + m) % 2048
  | none => 2048

def battCode : Option UInt8 -> Nat
  | some v => v.toNat
  | none => 127

def chargeCode (charging : Bool) : Nat :=
  if charging then 1 else 0

theorem lor_shiftLeft {a n : Nat} (h : a < 2 ^ n) (b : Nat) :
    a ||| (b <<< n) = a + b * 2 ^ n := by
  rw [Nat.or_comm, ← Nat.shiftLeft_add_eq_or_of_lt h, Nat.shiftLeft_eq, Nat.add_comm]

section Key

variable {disp : Display} {clock : Ntp.Clock} {nowMs : UInt32}

theorem stateCode_lt (state : DisplayState) : stateCode state < 4 := by
  cases state <;> decide

theorem stateCode_inj {s t : DisplayState} (h : stateCode s = stateCode t) : s = t := by
  cases s <;> cases t <;> first | rfl | exact absurd h (by decide)

theorem clockHm_range {h m : Nat} (hclock : Ntp.clockHm nowMs clock = some (h, m)) :
    h < 24 ∧ m < 60 := by
  unfold Ntp.clockHm at hclock
  split at hclock
  · cases hclock
  · simp only [Option.some.injEq, Prod.mk.injEq] at hclock
    omega

theorem clockCode_le (clock : Ntp.Clock) (nowMs : UInt32) :
    clockCode (Ntp.clockHm nowMs clock) ≤ 2048 := by
  unfold clockCode
  split
  · omega
  · exact Nat.le_refl _

theorem clockCode_inj {clock' : Ntp.Clock} {nowMs' : UInt32}
    (h : clockCode (Ntp.clockHm nowMs clock) = clockCode (Ntp.clockHm nowMs' clock')) :
    Ntp.clockHm nowMs clock = Ntp.clockHm nowMs' clock' := by
  cases hclock : Ntp.clockHm nowMs clock with
  | none =>
      cases hclock' : Ntp.clockHm nowMs' clock' with
      | none => rfl
      | some hm =>
          rcases hm with ⟨h', m'⟩
          have hrange := clockHm_range hclock'
          rw [hclock, hclock'] at h
          simp only [clockCode] at h
          omega
  | some hm =>
      rcases hm with ⟨hour, m⟩
      have hrange := clockHm_range hclock
      cases hclock' : Ntp.clockHm nowMs' clock' with
      | none =>
          rw [hclock, hclock'] at h
          simp only [clockCode] at h
          omega
      | some hm' =>
          rcases hm' with ⟨hour', m'⟩
          have hrange' := clockHm_range hclock'
          rw [hclock, hclock'] at h
          simp only [clockCode] at h
          rw [Nat.mod_eq_of_lt (by omega), Nat.mod_eq_of_lt (by omega)] at h
          have hdiv : (hour * 60 + m) / 60 = (hour' * 60 + m') / 60 := by rw [h]
          have hhour : hour = hour' := by omega
          have hminute : m = m' := by omega
          rw [hhour, hminute]

theorem battCode_le (h : disp.InRange) : battCode disp.battLevel ≤ 127 := by
  unfold battCode
  split
  · rename_i v hbatt
    exact Nat.le_trans (h.battery_le v hbatt) (by decide)
  · exact Nat.le_refl _

theorem battCode_inj {disp' : Display} (h : disp.InRange) (h' : disp'.InRange)
    (hcode : battCode disp.battLevel = battCode disp'.battLevel) :
    disp.battLevel = disp'.battLevel := by
  cases hbatt : disp.battLevel with
  | none =>
      cases hbatt' : disp'.battLevel with
      | none => rfl
      | some v' =>
          have hle := h'.battery_le v' hbatt'
          rw [hbatt, hbatt'] at hcode
          simp only [battCode] at hcode
          omega
  | some v =>
      have hle := h.battery_le v hbatt
      cases hbatt' : disp'.battLevel with
      | none =>
          rw [hbatt, hbatt'] at hcode
          simp only [battCode] at hcode
          omega
      | some v' =>
          rw [hbatt, hbatt'] at hcode
          exact congrArg some (UInt8.toNat_inj.mp hcode)

theorem chargeCode_le (charging : Bool) : chargeCode charging ≤ 1 := by
  cases charging <;> decide

theorem chargeCode_inj {a b : Bool} (h : chargeCode a = chargeCode b) : a = b := by
  cases a <;> cases b <;> first | rfl | exact absurd h (by decide)

theorem volume_bits (h : disp.InRange) : (disp.volume % 128).toNat = disp.volume.toNat := by
  have hnonneg := h.volume_nonneg
  have hle := h.volume_le
  rw [Int.emod_eq_of_lt hnonneg (by omega)]

theorem barKey_shown (h : disp.InRange) (hshown : showVolume disp nowMs = true) :
    barKey disp clock nowMs = stateCode disp.state + 8 + 16 * disp.volume.toNat := by
  have hlt := stateCode_lt disp.state
  have hkey : barKey disp clock nowMs =
      stateCode disp.state ||| (1 <<< 3) ||| (disp.volume.toNat <<< 4) := by
    unfold barKey stateCode
    rw [hshown, volume_bits h]
    rfl
  have hstate : stateCode disp.state ||| (1 <<< 3) = stateCode disp.state + 8 :=
    lor_shiftLeft (n := 3) (by omega) 1
  rw [hkey, hstate, lor_shiftLeft (by omega)]
  omega

theorem barKey_hidden (h : disp.InRange) (hshown : showVolume disp nowMs = false) :
    barKey disp clock nowMs =
      stateCode disp.state + 16 * disp.volume.toNat +
        2048 * clockCode (Ntp.clockHm nowMs clock) +
        16777216 * battCode disp.battLevel +
        2147483648 * chargeCode disp.battCharging := by
  have hlt := stateCode_lt disp.state
  have hvolume := h.volume_le
  have hclock := clockCode_le clock nowMs
  have hbatt := battCode_le h
  have hkey : barKey disp clock nowMs =
      (stateCode disp.state ||| 0 ||| (disp.volume.toNat <<< 4) |||
        (clockCode (Ntp.clockHm nowMs clock) <<< 11)) |||
        ((battCode disp.battLevel <<< 24) ||| (chargeCode disp.battCharging <<< 31)) := by
    unfold barKey stateCode clockCode battCode chargeCode
    rw [hshown, volume_bits h]
    cases Ntp.clockHm nowMs clock with
    | none => rfl
    | some hm => rfl
  have hbits : disp.volume.toNat <<< 4 = disp.volume.toNat * 16 := Nat.shiftLeft_eq _ 4
  have hlow : stateCode disp.state ||| (disp.volume.toNat <<< 4) =
      stateCode disp.state + disp.volume.toNat * 16 :=
    lor_shiftLeft (n := 4) (by omega) _
  have hminute : (stateCode disp.state + disp.volume.toNat * 16) |||
      (clockCode (Ntp.clockHm nowMs clock) <<< 11) =
        stateCode disp.state + disp.volume.toNat * 16 +
          clockCode (Ntp.clockHm nowMs clock) * 2048 :=
    lor_shiftLeft (n := 11) (by omega) _
  have hbattery : (battCode disp.battLevel <<< 24) ||| (chargeCode disp.battCharging <<< 31) =
      (battCode disp.battLevel + chargeCode disp.battCharging * 128) <<< 24 := by
    have hshift : battCode disp.battLevel <<< 24 = battCode disp.battLevel * 16777216 :=
      Nat.shiftLeft_eq _ 24
    rw [lor_shiftLeft (n := 31) (by omega), Nat.shiftLeft_eq, Nat.shiftLeft_eq]
    omega
  rw [hkey, Nat.or_zero, hlow, hminute, hbattery, lor_shiftLeft (n := 24) (by omega)]
  omega

/-- The key is never the one that stands for a bar that was not drawn. -/
theorem barKey_lt (clock : Ntp.Clock) (nowMs : UInt32) (h : disp.InRange) :
    barKey disp clock nowMs < UInt64.size - 1 := by
  have hlt := stateCode_lt disp.state
  have hvolume := h.volume_le
  have hclock := clockCode_le clock nowMs
  have hbatt := battCode_le h
  have hcharge := chargeCode_le disp.battCharging
  have hsize : 4294967296 < UInt64.size - 1 := by decide
  cases hshown : showVolume disp nowMs with
  | true =>
      rw [barKey_shown h hshown]
      omega
  | false =>
      rw [barKey_hidden h hshown]
      omega

end Key

/-! ## What the bar shows -/

structure BarStatus where
  time : Text
  /-- Colour of the signal bars. -/
  signal : UInt16
  battery : Text
  charging : Bool
  deriving DecidableEq, Repr

inductive BarReadout where
  | volume (text : Text)
  | status (status : BarStatus)
  deriving DecidableEq, Repr

structure BarContent where
  word : Text
  color : UInt16
  readout : BarReadout
  deriving DecidableEq, Repr

def barContent (disp : Display) (clock : Ntp.Clock) (nowMs : UInt32) : BarContent :=
  { word := disp.state.asStr
    color := disp.state.color
    readout :=
      if showVolume disp nowMs then
        .volume (formatVol disp.volume)
      else
        .status
          { time := Ntp.clockText nowMs clock
            signal := if disp.state != .offline then 0x07FF else 0x630C
            battery := battText disp.battLevel
            charging := disp.battCharging } }

def contentBand (font : Font) (content : BarContent) (band : List UInt8) : List UInt8 :=
  let band := fillColor barBg band
  let band := raster font screenW content.word content.color 6 band
  match content.readout with
  | .volume text => raster font screenW text 0x07FF 176 band
  | .status st =>
      let band := raster font screenW st.time 0xFFFF 150 band
      let band := fillRect screenW 190 10 3 5 st.signal band
      let band := fillRect screenW 195 7 3 8 st.signal band
      let band := fillRect screenW 200 4 3 11 st.signal band
      let bw := font.textWidth st.battery
      let band := raster font screenW st.battery 0xFFFF (237 - bw) band
      if st.charging then lightning (237 - bw - 8) band else band

theorem barBand_eq (font : Font) (disp : Display) (clock : Ntp.Clock) (nowMs : UInt32)
    (band : List UInt8) :
    barBand font disp clock nowMs band =
      contentBand font (barContent disp clock nowMs) band := by
  unfold barBand contentBand barContent
  cases showVolume disp nowMs <;> rfl

/-! ## The range of its values -/

theorem new_inRange : Display.new.InRange where
  volume_nonneg := by decide
  volume_le := by decide
  battery_le := by
    intro v hv
    cases hv

theorem setVolume_inRange {d : Display} (h : d.InRange) (volume : Int) (nowMs : UInt32) :
    (d.setVolume volume nowMs).InRange := by
  unfold Display.setVolume
  simp only
  split
  · exact h
  · refine ⟨?_, ?_, h.battery_le⟩
    · simp only
      omega
    · simp only
      omega

theorem setBattery_inRange {d : Display} {level : Option UInt8} (h : d.InRange)
    (hlevel : Battery.Valid level) (charging : Bool) :
    (d.setBattery level charging).InRange :=
  ⟨h.volume_nonneg, h.volume_le, hlevel⟩

inductive GaugeCall where
  | tickBattery (nowMs : UInt32) (reading : Option UInt16) (chgHigh : Bool)
  | setVolume (volume : Int) (nowMs : UInt32)
  deriving DecidableEq, Repr

def gaugeStep : GaugeCall -> Battery × Display -> Battery × Display -> Prop
  | .tickBattery nowMs reading chgHigh, s, t =>
      Battery.tick nowMs reading chgHigh s.1 = .ok t.1 ∧
        t.2 = s.2.setBattery t.1.level t.1.charging
  | .setVolume volume nowMs, s, t => t = (s.1, s.2.setVolume volume nowMs)

/-- In every run from boot the values are in range. -/
theorem gauges_inRange {calls : List GaugeCall} {t : Battery × Display}
    (hrun : Run gaugeStep (Battery.new, Display.new) calls t) :
    Battery.Valid t.1.level ∧ t.2.InRange := by
  apply hrun.invariant (P := fun s => Battery.Valid s.1.level ∧ s.2.InRange)
  · intro call s t hs hstep
    cases call with
    | tickBattery nowMs reading chgHigh =>
        rcases hstep with ⟨htick, hset⟩
        have hvalid := Battery.tick_valid hs.1 htick
        rw [hset]
        exact ⟨hvalid, setBattery_inRange hs.2 hvalid t.1.charging⟩
    | setVolume volume nowMs =>
        rw [hstep]
        exact ⟨hs.1, setVolume_inRange hs.2 volume nowMs⟩
  · exact ⟨Battery.valid_none, new_inRange⟩

/-! ## One key, one content -/

section Content

variable {disp disp' : Display} {clock clock' : Ntp.Clock} {nowMs nowMs' : UInt32}

theorem shown_of_barKey (clock : Ntp.Clock) (h : disp.InRange) :
    showVolume disp nowMs = true <-> 8 ≤ barKey disp clock nowMs % 16 := by
  have hlt := stateCode_lt disp.state
  cases hshown : showVolume disp nowMs with
  | true =>
      rw [barKey_shown h hshown]
      constructor
      · intro _
        omega
      · intro _
        rfl
  | false =>
      rw [barKey_hidden h hshown]
      constructor
      · intro hfalse
        exact absurd hfalse Bool.false_ne_true
      · intro hle
        omega

theorem fields_of_barKey (h : disp.InRange) (h' : disp'.InRange)
    (hkey : barKey disp clock nowMs = barKey disp' clock' nowMs') :
    disp.state = disp'.state ∧ showVolume disp nowMs = showVolume disp' nowMs' ∧
      (showVolume disp nowMs = true -> disp.volume = disp'.volume) ∧
      (showVolume disp nowMs = false ->
        Ntp.clockHm nowMs clock = Ntp.clockHm nowMs' clock' ∧
          disp.battLevel = disp'.battLevel ∧ disp.battCharging = disp'.battCharging) := by
  have hshown : showVolume disp nowMs = showVolume disp' nowMs' := by
    rw [Bool.eq_iff_iff, shown_of_barKey clock h, shown_of_barKey clock' h', hkey]
  have hlt := stateCode_lt disp.state
  have hlt' := stateCode_lt disp'.state
  have hnonneg := h.volume_nonneg
  have hnonneg' := h'.volume_nonneg
  have hle := h.volume_le
  have hle' := h'.volume_le
  cases hcase : showVolume disp nowMs with
  | true =>
      rw [hcase] at hshown
      rw [barKey_shown h hcase, barKey_shown h' hshown.symm] at hkey
      have hstate : disp.state = disp'.state := stateCode_inj (by omega)
      have hvolume : disp.volume = disp'.volume := by omega
      exact ⟨hstate, hshown, fun _ => hvolume, fun hfalse => nomatch hfalse⟩
  | false =>
      rw [hcase] at hshown
      have hclock := clockCode_le clock nowMs
      have hclock' := clockCode_le clock' nowMs'
      have hbatt := battCode_le h
      have hbatt' := battCode_le h'
      rw [barKey_hidden h hcase, barKey_hidden h' hshown.symm] at hkey
      have hstate : disp.state = disp'.state := stateCode_inj (by omega)
      have htime : Ntp.clockHm nowMs clock = Ntp.clockHm nowMs' clock' :=
        clockCode_inj (by omega)
      have hlevel : disp.battLevel = disp'.battLevel := battCode_inj h h' (by omega)
      have hcharging : disp.battCharging = disp'.battCharging :=
        chargeCode_inj (by omega)
      exact ⟨hstate, hshown, fun htrue => (nomatch htrue), fun _ => ⟨htime, hlevel, hcharging⟩⟩

theorem barContent_of_barKey (h : disp.InRange) (h' : disp'.InRange)
    (hkey : barKey disp clock nowMs = barKey disp' clock' nowMs') :
    barContent disp clock nowMs = barContent disp' clock' nowMs' := by
  rcases fields_of_barKey h h' hkey with ⟨hstate, hshown, hvolume, hstatus⟩
  unfold barContent
  rw [hstate, ← hshown]
  cases hcase : showVolume disp nowMs with
  | true => rw [if_pos rfl, if_pos rfl, hvolume hcase]
  | false =>
      rcases hstatus hcase with ⟨htime, hlevel, hcharging⟩
      have hclock : Ntp.clockText nowMs clock = Ntp.clockText nowMs' clock' := by
        unfold Ntp.clockText
        rw [htime]
      rw [if_neg Bool.false_ne_true, if_neg Bool.false_ne_true, hclock, hlevel, hcharging]

/-- Bars with one key look the same. -/
theorem barPicture_of_barKey (font : Font) (h : disp.InRange) (h' : disp'.InRange)
    (hkey : barKey disp clock nowMs = barKey disp' clock' nowMs') :
    barPicture font disp clock nowMs = barPicture font disp' clock' nowMs' := by
  unfold barPicture
  rw [barBand_eq, barBand_eq, barContent_of_barKey h h' hkey]

variable (clock clock' nowMs nowMs') in
/-- Bars with one key show the same, and their bands have the same bytes; and the key is
never the one that stands for a bar that was not drawn. -/
theorem bar_repainted_when_different (h : disp.InRange) (h' : disp'.InRange) :
    (barKey disp clock nowMs = barKey disp' clock' nowMs' ->
      barContent disp clock nowMs = barContent disp' clock' nowMs' ∧
        forall (font : Font) (n : Nat) (band band' : List UInt8), band.length = 2 * n ->
          band'.length = 2 * n ->
            barBand font disp clock nowMs band = barBand font disp' clock' nowMs' band') ∧
      barKey disp clock nowMs < UInt64.size ∧
        barKey disp clock nowMs ≠ Renderer.new.barKey := by
  have hlt := barKey_lt clock nowMs h
  refine ⟨fun hkey => ?_, Nat.lt_of_lt_of_le hlt (Nat.sub_le _ _), Nat.ne_of_lt hlt⟩
  have hcontent := barContent_of_barKey h h' hkey
  refine ⟨hcontent, fun font n band band' hlen hlen' => ?_⟩
  rw [barBand_congr hlen hlen', barBand_eq, barBand_eq, hcontent]

def sampleClock : Ntp.Clock :=
  { syncUnix := 1695908224
    syncBaseMs := 0
    synced := true }

/-- Within a minute, and while only subtitles come and go, the bar stays. -/
theorem bar_repainted_when_different_minute :
    barContent { Display.new with curLine := ['a'], lastTypeMs := 4000 } sampleClock 5000 =
        barContent { Display.new with history := [⟨['a'], Display.aiColor⟩] } sampleClock 9000 ∧
      barKey { Display.new with curLine := ['a'], lastTypeMs := 4000 } sampleClock 5000 ≠
        Renderer.new.barKey := by
  have hrange (d : Display) (hvolume : d.volume = 80) (hlevel : d.battLevel = none) :
      d.InRange := by
    refine ⟨?_, ?_, ?_⟩
    · rw [hvolume]
      decide
    · rw [hvolume]
      decide
    · intro v hv
      rw [hlevel] at hv
      cases hv
  have hbar := bar_repainted_when_different sampleClock sampleClock 5000 9000
    (hrange { Display.new with curLine := ['a'], lastTypeMs := 4000 } rfl rfl)
    (hrange { Display.new with history := [⟨['a'], Display.aiColor⟩] } rfl rfl)
  exact ⟨(hbar.1 (by decide)).1, hbar.2.2⟩

end Content

end Render
end TWA
