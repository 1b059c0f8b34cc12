import TWA.Config
import TWA.Foundation.Exec
import TWA.Foundation.F32
import TWA.Foundation.RingBuffer

/-!
# Audio output

Server PCM is fed into a byte ring, resampled to the speaker rate when needed,
and moved from there into a DMA transfer that `tick` keeps filled.  Arithmetic on
`f32` values goes through a rounding function `rnd`.  What the hardware decides
in a call, such as whether a transfer has run out and how much room it offers, is
an argument of the call.
-/

namespace TWA

open Foundation
open Foundation.Exec

namespace AudioOutput

abbrev Sample := BitVec 16

def sampleBytes : Nat := 4

def ringCapCandidates : List Nat :=
  [3 * 1024 * 1024, 1536 * 1024, 512 * 1024]

inductive I2sTx where
  | handle
  deriving DecidableEq, Repr

inductive DmaTxStreamBuf where
  | handle
  deriving DecidableEq, Repr

/-- A transfer in flight owns both handles. -/
structure I2sTxDmaTransfer where
  tx : I2sTx
  stream : DmaTxStreamBuf
  deriving DecidableEq, Repr

end AudioOutput

structure AudioOutput where
  ring : List UInt8
  head : Nat
  tail : Nat
  streaming : Bool
  started : Bool
  doneFlag : Bool
  inRate : UInt32
  volume : Int
  rFrac : Rat
  rPrev : AudioOutput.Sample
  tx : Option AudioOutput.I2sTx
  stream : Option AudioOutput.DmaTxStreamBuf
  xfer : Option AudioOutput.I2sTxDmaTransfer
  deriving DecidableEq, Repr

namespace AudioOutput

/-- A new output over a ring of the given size; size zero is a failed allocation. -/
def withRing (cap : Nat) : AudioOutput :=
  { ring := List.replicate cap 0
    head := 0
    tail := 0
    streaming := false
    started := false
    doneFlag := false
    inRate := 24000
    volume := 80
    rFrac := 0
    rPrev := 0
    tx := some .handle
    stream := some .handle
    xfer := none }

def new (reserve : Nat -> Bool) : AudioOutput :=
  withRing ((ringCapCandidates.find? reserve).getD 0)

def cap (a : AudioOutput) : Nat :=
  a.ring.length

def buffered (a : AudioOutput) : Exec Nat := do
  let n <- sub (a.head + a.cap) a.tail
  rem n a.cap

def space (a : AudioOutput) : Exec Nat := do
  let n <- sub (a.tail + 2 * a.cap) a.head
  let n <- sub n 1
  rem n a.cap

def setVolume (v : Int) (a : AudioOutput) : AudioOutput :=
  { a with volume := max 0 (min 100 v) }

def reclaim (a : AudioOutput) : AudioOutput :=
  match a.xfer with
  | some tr =>
      { a with xfer := none, tx := some tr.tx, stream := some tr.stream }
  | none => a

def beginStream (inputRate : UInt32) (a : AudioOutput) : AudioOutput :=
  { reclaim a with
    inRate :=
      if 8000 ≤ inputRate ∧ inputRate ≤ 48000 then inputRate else 24000
    head := 0
    tail := 0
    rFrac := 0
    rPrev := 0
    doneFlag := false
    started := false
    streaming := true }

def finishStream (a : AudioOutput) : AudioOutput :=
  { a with doneFlag := true }

def stopPlayback (a : AudioOutput) : AudioOutput :=
  { reclaim a with
    streaming := false
    started := false
    doneFlag := false
    head := 0
    tail := 0
    rFrac := 0
    rPrev := 0 }

def isActive (a : AudioOutput) : Exec Bool :=
  if a.streaming then
    pure true
  else do
    let n <- a.buffered
    pure (decide (n > 0))

/-!
## Samples and bytes
-/

def sampleOfBytes (lo hi : UInt8) : Sample :=
  hi.toBitVec ++ lo.toBitVec

def lowByte (s : Sample) : UInt8 :=
  ⟨s.extractLsb' 0 8⟩

def highByte (s : Sample) : UInt8 :=
  ⟨s.extractLsb' 8 8⟩

/-- The samples of a PCM16 block; an odd last byte is ignored. -/
def samplesOf : List UInt8 -> List Sample
  | lo :: hi :: rest => sampleOfBytes lo hi :: samplesOf rest
  | _ => []

def toLeBytes (y : BitVec 32) : List UInt8 :=
  [⟨y.extractLsb' 0 8⟩, ⟨y.extractLsb' 8 8⟩, ⟨y.extractLsb' 16 8⟩,
    ⟨y.extractLsb' 24 8⟩]

/-!
## Feeding
-/

def feedBytes : List UInt8 -> AudioOutput -> Exec AudioOutput
  | [], a => pure a
  | b :: bs, a => do
      let ring <- store a.ring a.head b
      let head <- rem (a.head + 1) a.cap
      feedBytes bs { a with ring := ring, head := head }

section Rounded

variable (rnd : Rat -> Rat)

def resampleOut (rPrev sCur : Sample) (t : Rat) : Sample :=
  BitVec.ofInt 16
    (F32.toI32 (rnd (rPrev.toInt + rnd (rnd (sCur.toInt - rPrev.toInt) * t))))

/-- The inner loop of the resampler.  The answer is the final fraction and
whether the ring was full; every sample step is at least one half, so three
rounds are enough. -/
def resampleLoop (ratio : Rat) (sCur : Sample) :
    Nat -> Rat -> AudioOutput -> Exec (Rat × Bool × AudioOutput)
  | 0, _, _ => .error .diverges
  | fuel + 1, t, a =>
      if t < 1 then do
        let out := resampleOut rnd a.rPrev sCur t
        let room <- a.space
        if room < 2 then
          pure (t, true, a)
        else
          let ring <- store a.ring a.head (lowByte out)
          let next <- rem (a.head + 1) a.cap
          let ring <- store ring next (highByte out)
          let head <- rem (a.head + 2) a.cap
          resampleLoop ratio sCur fuel (rnd (t + ratio))
            { a with ring := ring, head := head }
      else
        pure (t, false, a)

/-- The outer loop of the resampler; a full ring drops the rest of the block. -/
def resampleBlock (ratio : Rat) : List Sample -> AudioOutput -> Exec AudioOutput
  | [], a => pure a
  | sCur :: rest, a => do
      let (t, full, a) <- resampleLoop rnd ratio sCur 3 a.rFrac a
      let a :=
        { a with
          rFrac := if 1 ≤ t then rnd (t - 1) else t
          rPrev := sCur }
      if full then
        pure a
      else
        resampleBlock ratio rest a

def ratio (inRate : UInt32) : Rat :=
  rnd (inRate.toNat / Config.spkSampleRate.toNat)

/-- The answer is the number of input bytes taken, and the new output. -/
def feed (mono16 : List UInt8) (a : AudioOutput) : Exec (Nat × AudioOutput) :=
  if a.ring = [] ∨ mono16 = [] ∨ !a.streaming then
    pure (0, a)
  else if a.inRate = Config.spkSampleRate then do
    let room <- a.space
    let n := min mono16.length room
    let a <- feedBytes (mono16.take n) a
    pure (n, a)
  else do
    let nIn := mono16.length / 2
    let a <- resampleBlock rnd (ratio rnd a.inRate) (samplesOf mono16) a
    pure (nIn * 2, a)

/-!
## Draining
-/

/-- Squared volume, input gain and soft limiter; the level goes in the top half. -/
def applyVolumeCurve (v : Sample) (volume : Int) : BitVec 32 :=
  let level := rnd (volume / 100)
  let factor := rnd (level * level)
  let x := rnd (rnd (v.toInt * Config.spkInputGain) * factor)
  let a := |x|
  let k := Config.spkSoftclipK
  let a := if a > k then rnd (k + rnd (rnd (rnd (a - k) * k) / a)) else a
  let y := if x < 0 then -a else a
  BitVec.ofInt 32 (F32.toI32 y) <<< 16

def fillLoop (ring : List UInt8) (volume : Int) :
    Nat -> Nat -> List UInt8 -> Exec (Nat × List UInt8)
  | 0, tail, out => pure (tail, out)
  | n + 1, tail, out => do
      let lo <- index ring tail
      let next <- rem (tail + 1) ring.length
      let hi <- index ring next
      let tail <- rem (tail + 2) ring.length
      let y := applyVolumeCurve rnd (sampleOfBytes lo hi) volume
      fillLoop ring volume n tail (out ++ toLeBytes y)

/-- Take whole samples while they and the room last; the answer is the new tail
and the bytes written to the front of the slice. -/
def fillFromRing (ring : List UInt8) (head tail : Nat) (volume : Int)
    (outLen : Nat) : Exec (Nat × List UInt8) :=
  if ring = [] then
    pure (tail, [])
  else do
    let n <- sub (head + ring.length) tail
    let buffered <- rem n ring.length
    let availSamples := buffered / 2
    let wantSamples := outLen / sampleBytes
    fillLoop rnd ring volume (min availSamples wantSamples) tail []

/-!
## The pump
-/

structure TickInput where
  /-- The transfer in flight has run out. -/
  isDone : Bool
  availableBytes : Nat
  /-- Length of the slice that a push into the transfer in flight offers. -/
  pushSlice : Nat
  /-- Length of the slice that a fresh stream buffer offers. -/
  prefillSlice : Nat
  startOk : Bool
  deriving DecidableEq, Repr

/-- What one push queues: `audio` bytes from the ring, then silence. -/
structure Pushed where
  bytes : List UInt8
  audio : Nat
  deriving DecidableEq, Repr

def fillSlice (outLen : Nat) (a : AudioOutput) : Exec (Pushed × AudioOutput) := do
  let (tail, out) <- fillFromRing rnd a.ring a.head a.tail a.volume outLen
  let bytes := out ++ List.replicate (outLen - out.length) 0
  pure ({ bytes := bytes, audio := out.length }, { a with tail := tail })

/-- Prefill a fresh stream buffer and start a transfer; only a transfer that starts
hands the audio to the DMA. -/
def startTransfer (inp : TickInput) (a : AudioOutput) :
    Exec (Bool × Option Pushed × AudioOutput) :=
  match a.tx with
  | none => pure (false, none, a)
  | some tx =>
      match a.stream with
      | none => pure (false, none, a)
      | some stream => do
          let a := { a with tx := none, stream := none }
          let (pushed, a) <- fillSlice rnd inp.prefillSlice a
          if inp.startOk then
            pure (true, some pushed, { a with xfer := some ⟨tx, stream⟩ })
          else
            -- the prefilled audio is lost with the buffer
            pure (false, none, { a with tx := some tx, stream := some stream })

/-- `done_flag || buffered() >= PLAY_WATERMARK_BYTES`, evaluated from the left. -/
def watermark (a : AudioOutput) : Exec Bool :=
  if a.doneFlag then
    pure true
  else do
    let n <- a.buffered
    pure (decide (n ≥ Config.playWatermarkBytes))

def startWhenReady (inp : TickInput) (a : AudioOutput) :
    Exec (Bool × Option Pushed × AudioOutput) :=
  if !a.streaming then
    pure (false, none, a)
  else if a.started then
    startTransfer rnd inp a
  else do
    let ready <- a.watermark
    if ready then
      startTransfer rnd inp { a with started := true }
    else
      pure (false, none, a)

def drained (a : AudioOutput) : Exec Bool :=
  if a.streaming && a.doneFlag then do
    let n <- a.buffered
    pure (decide (n = 0))
  else
    pure false

/-- One pump step.  The answer is whether a transfer was started, and what was
handed to the DMA. -/
def tick (inp : TickInput) (a : AudioOutput) :
    Exec (Bool × Option Pushed × AudioOutput) :=
  if a.ring = [] ∧ a.xfer = none then
    pure (false, none, a)
  else
    match a.xfer with
    | some tr => do
        if inp.isDone then
          let a :=
            { a with xfer := none, tx := some tr.tx, stream := some tr.stream }
          let finished <- a.drained
          if finished then
            pure (false, none, { a with started := false, streaming := false })
          else
            -- underrun: restart below
            startWhenReady rnd inp a
        else
          let finished <- a.drained
          if a.streaming && !finished && decide (inp.availableBytes > 0) then
            let (pushed, a) <- fillSlice rnd inp.pushSlice a
            pure (false, some pushed, a)
          else
            pure (false, none, a)
    | none => startWhenReady rnd inp a

end Rounded

end AudioOutput
end TWA
