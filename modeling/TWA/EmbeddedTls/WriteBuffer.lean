import TWA.EmbeddedTls.RecordReader

/-!
# Sending TLS records

A record is built in the write buffer, sealed in place, and sent from there.
What has been sealed and what has been sent of it are fields of the buffer, so
that a flush can be dropped while it waits for the transport and the next one
sends the rest.  As for reading, a call is modelled by the stretches of code
between two waits.
-/

namespace TWA
namespace EmbeddedTls

open Foundation
open Foundation.Exec

/-- The cipher of the connection: the keys are fixed, and the nonce is made from the
counter.  A sealed text is longer than its plaintext by the tag. -/
structure Aead where
  tagLen : Nat
  encrypt : Nat -> List UInt8 -> List UInt8 -> List UInt8
  tagLen_lt : tagLen < 128
  length_encrypt : forall counter aad plain,
    (encrypt counter aad plain).length = plain.length + tagLen

def u16Bytes (n : Nat) : List UInt8 :=
  [UInt8.ofNat (n / 256), UInt8.ofNat n]

inductive ClientRecordHeader where
  | handshake (encrypted : Bool)
  | alert (encrypted : Bool)
  | applicationData
  deriving DecidableEq, Repr

namespace ClientRecordHeader

def isEncrypted : ClientRecordHeader -> Bool
  | handshake encrypted => encrypted
  | alert encrypted => encrypted
  | applicationData => true

def headerContentType : ClientRecordHeader -> ContentType
  | handshake false => .handshake
  | alert false => .changeCipherSpec
  | handshake true => .applicationData
  | alert true => .applicationData
  | applicationData => .applicationData

def trailerContentType : ClientRecordHeader -> ContentType
  | handshake _ => .handshake
  | alert _ => .alert
  | applicationData => .applicationData

def version : ClientRecordHeader -> List UInt8
  | handshake false => [0x03, 0x01]
  | alert false => [0x03, 0x01]
  | handshake true => [0x03, 0x03]
  | alert true => [0x03, 0x03]
  | applicationData => [0x03, 0x03]

def encode (h : ClientRecordHeader) : List UInt8 :=
  h.headerContentType.toByte :: h.version

end ClientRecordHeader

/-! ## The buffer -/

def tlsRecordOverhead : Nat := 128

def headerSize : Nat := 5

structure WriteBuffer where
  buffer : List UInt8
  pos : Nat
  currentHeader : Option ClientRecordHeader
  /-- Length of the sealed record that is to be sent. -/
  pendingLen : Nat
  /-- How much of it has been sent. -/
  pendingSent : Nat
  deriving DecidableEq, Repr

namespace WriteBuffer

def new (buffer : List UInt8) : WriteBuffer :=
  { buffer := buffer
    pos := 0
    currentHeader := none
    pendingLen := 0
    pendingSent := 0 }

def maxBlockSize (w : WriteBuffer) : Exec Nat :=
  sub w.buffer.length tlsRecordOverhead

def isFull (w : WriteBuffer) : Exec Bool := do
  let max <- w.maxBlockSize
  pure (w.pos == max)

def isEmpty (w : WriteBuffer) : Bool :=
  w.pos == 0

def space (w : WriteBuffer) : Exec Nat := do
  let max <- w.maxBlockSize
  sub max w.pos

def contains (header : ClientRecordHeader) (w : WriteBuffer) : Bool :=
  w.currentHeader == some header

/-- The answer is how many of the bytes have been taken into the buffer. -/
def append (bytes : List UInt8) (w : WriteBuffer) : Exec (Nat × WriteBuffer) := do
  let space <- w.space
  let buffered := min bytes.length space
  if buffered > 0 then do
    let _ <- slice w.buffer w.pos (w.pos + buffered)
    pure (buffered,
      { w with
        buffer := splice w.buffer w.pos (bytes.take buffered)
        pos := w.pos + buffered })
  else
    pure (buffered, w)

/-- The header, with a length of zero that is filled in when the record is closed. -/
def startRecord (header : ClientRecordHeader) (w : WriteBuffer) :
    Exec (Except TlsError Unit × WriteBuffer) := do
  let w := { w with currentHeader := some header }
  let room <- sub w.buffer.length w.pos
  if room < header.encode.length then
    pure (.error .encodeError, w)
  else if room < header.encode.length + 2 then
    pure (.error .insufficientSpace, w)
  else
    pure (.ok (),
      { w with
        buffer := splice w.buffer w.pos (header.encode ++ u16Bytes 0)
        pos := w.pos + (header.encode ++ u16Bytes 0).length })

def additionalData (len : Nat) : List UInt8 :=
  [ContentType.applicationData.toByte, 0x03, 0x03] ++ u16Bytes len

/-- Seal the content behind the header in place, with the content type as its last byte.
The answer is the buffer and the length of the whole record. -/
def sealContent (aead : Aead) (counter : Nat) (header : ClientRecordHeader)
    (buffer : List UInt8) (pos : Nat) :
    Exec (Except TlsError (List UInt8 × Nat)) :=
  if !header.isEncrypted then
    pure (.ok (buffer, pos))
  else do
    let room <- sub buffer.length pos
    if room = 0 then
      pure (.error .encodeError)
    else do
      let buffer <- store buffer pos header.trailerContentType.toByte
      let len <- sub (pos + 1) headerSize
      let plain <- slice buffer headerSize (headerSize + len)
      if len + aead.tagLen > buffer.length then
        pure (.error .insufficientSpace)
      else
        let sealedText := aead.encrypt counter (additionalData (len + aead.tagLen)) plain
        if headerSize + sealedText.length > buffer.length then
          pure (.error .invalidApplicationData)
        else
          pure (.ok (splice buffer headerSize sealedText, headerSize + sealedText.length))

/-- The answer is the length of the closed record, which lies at the front of the
buffer. -/
def closeRecord (aead : Aead) (counter : Nat) (w : WriteBuffer) :
    Exec (Except TlsError Nat × WriteBuffer) :=
  match w.currentHeader with
  | none => .error .unwrapNone
  | some header => do
      let w := { w with currentHeader := none }
      match <- sealContent aead counter header w.buffer w.pos with
      | .error e => pure (.error e, w)
      | .ok (buffer, pos) => do
          let len <- sub pos headerSize
          let buffer <- store buffer 3 (UInt8.ofNat (len / 256))
          let buffer <- store buffer 4 (UInt8.ofNat len)
          let _ <- slice buffer 0 pos
          pure (.ok pos, { w with buffer := buffer, pos := 0 })

def closeRecordPending (aead : Aead) (counter : Nat) (w : WriteBuffer) :
    Exec (Except TlsError Unit × WriteBuffer) := do
  match <- closeRecord aead counter w with
  | (.error e, w) => pure (.error e, w)
  | (.ok len, w) => pure (.ok (), { w with pendingLen := len, pendingSent := 0 })

def pendingRemaining (w : WriteBuffer) : Exec Nat :=
  sub w.pendingLen w.pendingSent

def pendingSlice (w : WriteBuffer) : Exec (List UInt8) :=
  slice w.buffer w.pendingSent w.pendingLen

def advancePending (len : Nat) (w : WriteBuffer) : WriteBuffer :=
  { w with pendingSent := w.pendingSent + len }

def clearPending (w : WriteBuffer) : WriteBuffer :=
  { w with pendingLen := 0, pendingSent := 0 }

end WriteBuffer

/-! ## The connection -/

inductive FlushPolicy where
  | relaxed
  | strict
  deriving DecidableEq, Repr

def FlushPolicy.flushTransport (policy : FlushPolicy) : Bool :=
  policy == .strict

structure TlsConnection where
  opened : Bool
  writeBuf : WriteBuffer
  counter : Nat
  policy : FlushPolicy
  /-- Ghost: the bytes that `append` has taken. -/
  accepted : List UInt8
  /-- Ghost: the counter and the content of every sealed record. -/
  sealed : List (Nat × List UInt8)
  /-- Ghost: the buffer was written to over a ciphertext that was not sent. -/
  clobbered : Bool
  deriving DecidableEq, Repr

namespace TlsConnection

inductive Caller where
  | flush
  /-- `write` flushes before it starts a record for the bytes. -/
  | beforeRecord (bytes : List UInt8)
  /-- `write` flushes a full buffer after it has taken some bytes. -/
  | afterAppend (buffered : Nat)
  deriving DecidableEq, Repr

inductive Await where
  | sending (caller : Caller)
  | flushing (caller : Caller)
  deriving DecidableEq, Repr

inductive Progress where
  | awaits (a : Await)
  /-- A write answers with the number of bytes taken, a flush with zero. -/
  | returned (result : Except TlsError Nat)

section Calls

variable (aead : Aead)

def sendLoop (caller : Caller) (k : TlsConnection -> Exec (Progress × TlsConnection))
    (wrote : Bool) (c : TlsConnection) : Exec (Progress × TlsConnection) := do
  let remaining <- c.writeBuf.pendingRemaining
  if remaining > 0 then do
    let _ <- c.writeBuf.pendingSlice
    pure (.awaits (.sending caller), c)
  else
    let c := { c with writeBuf := c.writeBuf.clearPending }
    if wrote && c.policy.flushTransport then
      pure (.awaits (.flushing caller), c)
    else
      k c

def incrementCounter (counter : Nat) : Exec Nat :=
  if counter + 1 < UInt64.size then .ok (counter + 1) else .error .unwrapNone

/-- A flush, up to its first wait; the counter is incremented as soon as a record is
sealed. -/
def flushWith (caller : Caller) (k : TlsConnection -> Exec (Progress × TlsConnection))
    (c : TlsConnection) : Exec (Progress × TlsConnection) :=
  if c.writeBuf.isEmpty then
    sendLoop caller k false c
  else do
    let content := (c.writeBuf.buffer.take c.writeBuf.pos).drop headerSize
    match <- c.writeBuf.closeRecordPending aead c.counter with
    | (.error e, w) => pure (.returned (.error e), { c with writeBuf := w })
    | (.ok _, w) => do
        let counter <- incrementCounter c.counter
        sendLoop caller k true
          { c with
            writeBuf := w
            counter := counter
            sealed := c.sealed ++ [(c.counter, content)] }

def unsent (c : TlsConnection) : List UInt8 :=
  (c.writeBuf.buffer.take c.writeBuf.pendingLen).drop c.writeBuf.pendingSent

def appendStage (bytes : List UInt8) (c : TlsConnection) :
    Exec (Progress × TlsConnection) := do
  let (buffered, w) <- c.writeBuf.append bytes
  let c :=
    { c with
      writeBuf := w
      accepted := c.accepted ++ bytes.take buffered
      clobbered := c.clobbered || !c.unsent.isEmpty }
  let full <- w.isFull
  if full then
    flushWith aead (.afterAppend buffered) (fun c => pure (.returned (.ok buffered), c)) c
  else
    pure (.returned (.ok buffered), c)

def afterFlush (caller : Caller) (c : TlsConnection) :
    Exec (Progress × TlsConnection) :=
  match caller with
  | .flush => pure (.returned (.ok 0), c)
  | .beforeRecord bytes => do
      match <- c.writeBuf.startRecord .applicationData with
      | (.error e, w) => pure (.returned (.error e), { c with writeBuf := w })
      | (.ok _, w) =>
          appendStage aead bytes
            { c with writeBuf := w, clobbered := c.clobbered || !c.unsent.isEmpty }
  | .afterAppend buffered => pure (.returned (.ok buffered), c)

def flush (c : TlsConnection) : Exec (Progress × TlsConnection) :=
  flushWith aead .flush (afterFlush aead .flush) c

def write (bytes : List UInt8) (c : TlsConnection) : Exec (Progress × TlsConnection) :=
  if c.opened then
    if c.writeBuf.contains .applicationData then
      appendStage aead bytes c
    else
      flushWith aead (.beforeRecord bytes) (afterFlush aead (.beforeRecord bytes)) c
  else
    pure (.returned (.error .missingHandshake), c)

def resume (n : Nat) (a : Await) (c : TlsConnection) : Exec (Progress × TlsConnection) :=
  match a with
  | .sending caller =>
      sendLoop caller (afterFlush aead caller) true
        { c with writeBuf := c.writeBuf.advancePending n }
  | .flushing caller => afterFlush aead caller c

end Calls

/-! ## The connection between its caller and its transport -/

structure State where
  conn : TlsConnection
  /-- The future of the call in progress waits here. -/
  future : Option Await
  /-- The bytes that the transport has taken. -/
  taken : List UInt8
  deriving DecidableEq, Repr

inductive Event where
  | writeCalled (bytes : List UInt8)
  | flushCalled
  /-- The transport takes `n` bytes of what it is offered. -/
  | took (n : Nat)
  | transportFlushed
  | dropped
  /-- The transport reports an error or takes nothing. -/
  | transportFailed
  deriving DecidableEq, Repr

def Enabled (e : Event) (s : State) : Prop :=
  match e with
  | .writeCalled _ => s.future = none
  | .flushCalled => s.future = none
  | .took n =>
      (exists caller, s.future = some (.sending caller)) ∧ 0 < n ∧
        n ≤ s.conn.unsent.length
  | .transportFlushed => exists caller, s.future = some (.flushing caller)
  | .dropped => s.future ≠ none
  | .transportFailed => s.future ≠ none

def settle (s : State) : Progress × TlsConnection -> State
  | (.awaits a, c) => { s with conn := c, future := some a }
  | (.returned _, c) => { s with conn := c, future := none }

def next (aead : Aead) (e : Event) (s : State) : Exec State :=
  match e with
  | .writeCalled bytes => do
      let result <- write aead bytes s.conn
      pure (settle s result)
  | .flushCalled => do
      let result <- flush aead s.conn
      pure (settle s result)
  | .took n =>
      match s.future with
      | none => pure s
      | some a => do
          let result <- resume aead n a s.conn
          pure (settle { s with taken := s.taken ++ s.conn.unsent.take n } result)
  | .transportFlushed =>
      match s.future with
      | none => pure s
      | some a => do
          let result <- resume aead 0 a s.conn
          pure (settle s result)
  | .dropped => pure { s with future := none }
  | .transportFailed => pure { s with future := none }

def step (aead : Aead) (e : Event) (s t : State) : Prop :=
  Enabled e s ∧ next aead e s = .ok t

/-- A connection whose handshake is over: the counter starts again at zero. -/
def start (buffer : List UInt8) (policy : FlushPolicy) : State :=
  { conn :=
      { opened := true
        writeBuf := WriteBuffer.new buffer
        counter := 0
        policy := policy
        accepted := []
        sealed := []
        clobbered := false }
    future := none
    taken := [] }

end TlsConnection
end EmbeddedTls
end TWA
