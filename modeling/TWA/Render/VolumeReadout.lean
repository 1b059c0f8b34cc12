import TWA.Render.Model

/-!
# The volume readout

A change of the volume sets a deadline 1.5 seconds ahead, and the readout is
tested against it with a wrapping subtraction.  Times are those of a clock that
does not wrap; the program sees them modulo `2 ^ 32`.
-/

namespace TWA

open Foundation

namespace Render

structure VolumeCall where
  volume : Int
  time : Nat
  deriving DecidableEq, Repr

def VolumeCall.apply (c : VolumeCall) (d : Display) : Display :=
  d.setVolume c.volume (UInt32.ofNat c.time)

def setVolumes : List VolumeCall -> Display -> Display
  | [], d => d
  | c :: cs, d => setVolumes cs (c.apply d)

def lastChange : List VolumeCall -> Display -> Option Nat
  | [], _ => none
  | c :: cs, d =>
      match lastChange cs (c.apply d) with
      | some t => some t
      | none => if (c.apply d).volume = d.volume then none else some c.time

/-- The readout is shown exactly if the last change is less than 1.5 seconds ago. -/
def ShownInTime (cs : List VolumeCall) (d : Display) (now : Nat) : Prop :=
  showVolume (setVolumes cs d) (UInt32.ofNat now) = true <->
    exists t, lastChange cs d = some t ∧ now < t + 1500

section Deadline

variable {d : Display} {c : VolumeCall} {cs : List VolumeCall} {now t : Nat}

theorem apply_volumeUntilMs :
    (c.apply d).volumeUntilMs =
      if (c.apply d).volume = d.volume then d.volumeUntilMs
      else UInt32.ofNat (c.time + 1500) := by
  unfold VolumeCall.apply Display.setVolume
  by_cases hsame : max 0 (min 100 c.volume) = d.volume
  · simp [hsame]
  · simp [hsame]

theorem setVolumes_volumeUntilMs (cs : List VolumeCall) (d : Display) :
    (setVolumes cs d).volumeUntilMs =
      match lastChange cs d with
      | some t => UInt32.ofNat (t + 1500)
      | none => d.volumeUntilMs := by
  induction cs generalizing d with
  | nil => rfl
  | cons c cs ih =>
      rw [setVolumes, ih, lastChange]
      cases lastChange cs (c.apply d) with
      | some t => rfl
      | none =>
          simp only [apply_volumeUntilMs]
          split <;> rfl

/-- Within half a turn of the clock the test says that the deadline has passed, and
a deadline of zero counts as none. -/
theorem shown_after_deadline (huntil : d.volumeUntilMs = UInt32.ofNat (t + 1500))
    (hle : t ≤ now) (hlt : now < t + 2 ^ 31) :
    showVolume d (UInt32.ofNat now) = true <->
      (t + 1500) % 2 ^ 32 ≠ 0 ∧ t + 1500 ≤ now := by
  unfold showVolume
  rw [huntil, Bool.and_eq_true, bne_iff_ne, decide_eq_true_eq, ne_eq,
    ← UInt32.toNat_inj, UInt32.lt_iff_toNat_lt, UInt32.toNat_sub, UInt32.toNat_ofNat',
    UInt32.toNat_ofNat']
  have hhalf : ((0xFFFFFFFF / 2 : UInt32)).toNat = 2147483647 := rfl
  have hzero : (0 : UInt32).toNat = 0 := rfl
  rw [hhalf, hzero]
  omega

end Deadline

/-- The readout comes out right only if the volume was never changed, or if its
deadline is the value that means none and has passed. -/
theorem volume_readout_in_time_iff {d : Display} (cs : List VolumeCall) (now : Nat)
    (hnew : d.volumeUntilMs = 0)
    (hlater : forall t, lastChange cs d = some t -> t ≤ now ∧ now < t + 2 ^ 31) :
    ShownInTime cs d now <->
      forall t, lastChange cs d = some t ->
        (t + 1500) % 2 ^ 32 = 0 ∧ t + 1500 ≤ now := by
  have huntil := setVolumes_volumeUntilMs cs d
  unfold ShownInTime
  cases hlast : lastChange cs d with
  | none =>
      rw [hlast, hnew] at huntil
      have hhidden : showVolume (setVolumes cs d) (UInt32.ofNat now) = false := by
        unfold showVolume
        rw [huntil]
        rfl
      simp [hhidden]
  | some t =>
      rw [hlast] at huntil
      have hwhen := hlater t hlast
      rw [shown_after_deadline huntil hwhen.1 hwhen.2]
      simp only [Option.some.injEq, exists_eq_left', forall_eq']
      omega

/-- A change 1.5 seconds before the clock wraps: its deadline is zero. -/
theorem volume_readout_in_time_iff_zero_deadline :
    ShownInTime [⟨50, 2 ^ 32 - 1500⟩] Display.new (2 ^ 32) := by
  have hlast : lastChange [⟨50, 2 ^ 32 - 1500⟩] Display.new = some (2 ^ 32 - 1500) := by
    decide
  apply (volume_readout_in_time_iff _ _ rfl ?_).mpr
  · intro t ht
    rw [hlast, Option.some.injEq] at ht
    omega
  · intro t ht
    rw [hlast, Option.some.injEq] at ht
    omega

/-- A tenth of a second after a change the readout is hidden, and two seconds after it
is shown. -/
theorem volume_readout_inverted :
    showVolume (setVolumes [⟨50, 1000⟩] Display.new) 1100 = false ∧
      showVolume (setVolumes [⟨50, 1000⟩] Display.new) 3000 = true ∧
      ¬ ShownInTime [⟨50, 1000⟩] Display.new 1100 ∧
      ¬ ShownInTime [⟨50, 1000⟩] Display.new 3000 := by
  have hlast : lastChange [⟨50, 1000⟩] Display.new = some 1000 := by decide
  have hhidden : showVolume (setVolumes [⟨50, 1000⟩] Display.new)
      (UInt32.ofNat 1100) = false := by decide
  have hshown : showVolume (setVolumes [⟨50, 1000⟩] Display.new)
      (UInt32.ofNat 3000) = true := by decide
  refine ⟨hhidden, hshown, fun hclaim => ?_, fun hclaim => ?_⟩
  · have htrue := hclaim.mpr ⟨1000, hlast, by decide⟩
    rw [hhidden] at htrue
    cases htrue
  · rcases hclaim.mp hshown with ⟨t, ht, hlt⟩
    rw [hlast, Option.some.injEq] at ht
    omega

end Render
end TWA
