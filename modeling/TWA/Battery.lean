import TWA.Config
import TWA.Foundation.Exec

/-!
# The battery

Every half minute the converter is read and the reading is turned into a percentage by
interpolation in a calibration table.  A reading that times out leaves the level as it
is.
-/

namespace TWA

open Foundation
open Foundation.Exec

namespace Battery

def cal : List (Nat × Nat) :=
  [(1970, 0), (2062, 20), (2154, 40), (2246, 60), (2338, 80), (2430, 100)]

def segmentLoop (raw : Nat) : Nat -> Nat -> Exec Nat
  | 0, _ => .error .diverges
  | fuel + 1, i =>
      if i + 1 < cal.length - 1 then do
        let next <- index cal (i + 1)
        if raw ≥ next.1 then segmentLoop raw fuel (i + 1) else pure i
      else
        pure i

def rawToLevel (raw : UInt16) : Exec UInt8 := do
  let low <- index cal 0
  if raw.toNat ≤ low.1 then
    pure (UInt8.ofNat low.2)
  else do
    let high <- index cal (cal.length - 1)
    if raw.toNat ≥ high.1 then
      pure (UInt8.ofNat high.2)
    else do
      let i <- segmentLoop raw.toNat cal.length 0
      let a <- index cal i
      let b <- index cal (i + 1)
      pure (UInt8.ofNat (a.2 + (raw.toNat - a.1) * (b.2 - a.2) / (b.1 - a.1)))

end Battery

structure Battery where
  /-- Nothing has been read yet if there is none. -/
  level : Option UInt8
  charging : Bool
  lastPollMs : UInt32
  deriving DecidableEq, Repr

namespace Battery

def new : Battery :=
  { level := none
    charging := false
    lastPollMs := 1 - Config.batPollMs }

/-- The reading is the median of some conversions; there is none if one of them takes too
long.  A full battery does not show as charging. -/
def tick (nowMs : UInt32) (reading : Option UInt16) (chgHigh : Bool) (b : Battery) :
    Exec Battery :=
  if nowMs - b.lastPollMs < Config.batPollMs then
    pure b
  else
    let b := { b with lastPollMs := nowMs }
    match reading with
    | none => pure b
    | some raw => do
        let lvl <- rawToLevel raw
        pure { b with level := some lvl, charging := chgHigh && decide (lvl < 100) }

def Valid (level : Option UInt8) : Prop :=
  forall v, level = some v -> v.toNat ≤ 100

theorem valid_none : Valid none := by
  intro v hv
  cases hv

theorem toNat_ofNat_of_le {n : Nat} (h : n ≤ 100) : (UInt8.ofNat n).toNat ≤ 100 := by
  rw [UInt8.toNat_ofNat']
  omega

theorem segmentLoop_ends {raw : Nat} (hlow : 1970 < raw) (hhigh : raw < 2430) :
    exists i, segmentLoop raw cal.length 0 = .ok i ∧ i < 5 ∧
      1970 + 92 * i ≤ raw ∧ raw < 2062 + 92 * i := by
  by_cases h1 : raw ≥ 2062
  · by_cases h2 : raw ≥ 2154
    · by_cases h3 : raw ≥ 2246
      · by_cases h4 : raw ≥ 2338
        · exact ⟨4, by simp [segmentLoop, cal, index, h1, h2, h3, h4], by omega⟩
        · exact ⟨3, by simp [segmentLoop, cal, index, h1, h2, h3, h4], by omega⟩
      · exact ⟨2, by simp [segmentLoop, cal, index, h1, h2, h3], by omega⟩
    · exact ⟨1, by simp [segmentLoop, cal, index, h1, h2], by omega⟩
  · exact ⟨0, by simp [segmentLoop, cal, index, h1], by omega⟩

theorem index_cal {i : Nat} (h : i < 6) : index cal i = .ok (1970 + 92 * i, 20 * i) := by
  have hall : forall i : Fin 6, index cal i = .ok (1970 + 92 * i.val, 20 * i.val) := by decide
  exact hall ⟨i, h⟩

theorem rawToLevel_le (raw : UInt16) :
    exists v, rawToLevel raw = .ok v ∧ v.toNat ≤ 100 := by
  have hfirst : index cal 0 = .ok (1970, 0) := rfl
  have hlast : index cal (cal.length - 1) = .ok (2430, 100) := rfl
  unfold rawToLevel
  rw [hfirst, ok_bind]
  by_cases hlow : raw.toNat ≤ 1970
  · rw [if_pos hlow]
    exact ⟨_, rfl, toNat_ofNat_of_le (Nat.zero_le 100)⟩
  · rw [if_neg hlow, hlast, ok_bind]
    by_cases hhigh : raw.toNat ≥ 2430
    · rw [if_pos hhigh]
      exact ⟨_, rfl, toNat_ofNat_of_le (Nat.le_refl 100)⟩
    · rw [if_neg hhigh]
      rcases segmentLoop_ends (Nat.lt_of_not_le hlow) (Nat.lt_of_not_le hhigh) with
        ⟨i, hloop, hi, hleft, hright⟩
      rw [hloop, ok_bind, index_cal (by omega), ok_bind, index_cal (by omega), ok_bind]
      refine ⟨_, rfl, toNat_ofNat_of_le ?_⟩
      have hrise : 20 * (i + 1) - 20 * i = 20 := by omega
      have hwidth : 1970 + 92 * (i + 1) - (1970 + 92 * i) = 92 := by omega
      simp only [hrise, hwidth]
      omega

theorem tick_valid {nowMs : UInt32} {reading : Option UInt16} {chgHigh : Bool} {b b' : Battery}
    (hb : Valid b.level) (h : tick nowMs reading chgHigh b = .ok b') : Valid b'.level := by
  unfold tick at h
  split at h
  · cases h
    exact hb
  · cases reading with
    | none =>
        cases h
        exact hb
    | some raw =>
        rcases bind_eq_ok.mp h with ⟨lvl, hlvl, h⟩
        cases h
        rcases rawToLevel_le raw with ⟨v, hv, hle⟩
        rw [hv] at hlvl
        cases hlvl
        intro w hw
        cases hw
        exact hle

end Battery
end TWA
