import Mathlib.Data.Rat.Defs

/-!
# Firmware constants

The constants of the configuration that the modelled functions read.
-/

namespace TWA
namespace Config

/-! ## Audio -/

def spkSampleRate : UInt32 := 16000

/-- Buffered bytes at which playback starts before the stream is done. -/
def playWatermarkBytes : Nat := 32 * 1024

def defaultStreamInputRate : UInt32 := 24000

/-! ## Output level -/

def spkInputGain : Rat := 4

def spkSoftclipK : Rat := 16000

/-! ## Clock -/

structure Ipv4Addr where
  a : UInt8
  b : UInt8
  c : UInt8
  d : UInt8
  deriving DecidableEq, Repr

def ntpServers : List Ipv4Addr :=
  [⟨120, 25, 115, 20⟩, ⟨119, 28, 183, 184⟩, ⟨216, 239, 35, 8⟩]

def tzOffsetHours : Nat := 8

/-! ## Behaviour, in milliseconds -/

def autoListenOnBoot : Bool := true

def listenTimeoutMs : UInt32 := 3 * 60 * 1000

def resumeListenSilenceMs : UInt32 := 400

def listenCooldownMs : UInt32 := 8000

def batPollMs : UInt32 := 30000

def typeIntervalMs : UInt32 := 143

end Config
end TWA
