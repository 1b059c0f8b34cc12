import TWA.Foundation.Bytes

/-!
# Reading TLS records

A record is a header of five bytes and a body of the length that the header
gives.  The reader keeps its progress in its own fields, so that the future of
a read can be dropped at every wait and the next read goes on from there.  A
read is modelled by the stretches of code between two waits: it starts or is
resumed with the bytes that the transport has read, and then waits again,
hands a record over, or fails.
-/

namespace TWA
namespace EmbeddedTls

open Foundation
open Foundation.Exec

inductive TlsError where
  | io
  | invalidRecord
  | insufficientSpace
  | encodeError
  | invalidApplicationData
  | missingHandshake
  deriving DecidableEq, Repr

inductive ContentType where
  | invalid
  | changeCipherSpec
  | alert
  | handshake
  | applicationData
  deriving DecidableEq, Repr

def ContentType.of (num : UInt8) : Option ContentType :=
  if num = 0 then some .invalid
  else if num = 20 then some .changeCipherSpec
  else if num = 21 then some .alert
  else if num = 22 then some .handshake
  else if num = 23 then some .applicationData
  else none

def ContentType.toByte : ContentType -> UInt8
  | invalid => 0
  | changeCipherSpec => 20
  | alert => 21
  | handshake => 22
  | applicationData => 23

structure RecordHeader where
  header : List UInt8
  deriving DecidableEq, Repr

namespace RecordHeader

def len : Nat := 5

def contentLength (h : RecordHeader) : Nat :=
  (h.header.getD 3 0).toNat * 256 + (h.header.getD 4 0).toNat

def decode (header : List UInt8) : Except TlsError RecordHeader :=
  match ContentType.of (header.getD 0 0) with
  | none => .error .invalidRecord
  | some _ => .ok ⟨header⟩

end RecordHeader

structure RecordReader where
  buf : List UInt8
  /-- Bytes of the buffer that have been handed over. -/
  decoded : Nat
  /-- Bytes behind them that have been read. -/
  pending : Nat
  hdr : List UInt8
  hdrHave : Nat
  /-- The header is complete and the body is being read. -/
  bodyActive : Bool
  bodyLen : Nat
  deriving DecidableEq, Repr

namespace RecordReader

def new (buf : List UInt8) : RecordReader :=
  { buf := buf
    decoded := 0
    pending := 0
    hdr := List.replicate RecordHeader.len 0
    hdrHave := 0
    bodyActive := false
    bodyLen := 0 }

/-- Where a read waits for the transport, with the local variables of the future. -/
inductive Await where
  | header
  | body (header : RecordHeader) (amount remain : Nat)
  deriving DecidableEq, Repr

def Await.requested (r : RecordReader) : Await -> Nat
  | header => RecordHeader.len - r.hdrHave
  | body _ _ remain => remain

inductive Progress where
  | awaits (a : Await)
  /-- A header and a body are handed to `ServerRecord::decode`. -/
  | ready (header : RecordHeader) (body : List UInt8)
  | failed (e : TlsError)
  deriving DecidableEq, Repr

def ensureContiguous (len : Nat) (r : RecordReader) :
    Exec (Except TlsError RecordReader) :=
  if r.decoded + len > r.buf.length then
    if len > r.buf.length then
      pure (.error .insufficientSpace)
    else do
      let moved <- slice r.buf r.decoded (r.decoded + r.pending)
      pure (.ok { r with buf := splice r.buf 0 moved, decoded := 0 })
  else
    pure (.ok r)

def consume (header : RecordHeader) (r : RecordReader) :
    Exec (Progress × RecordReader) := do
  let contentLen := header.contentLength
  let data <- slice r.buf r.decoded (r.decoded + contentLen)
  let pending <- sub r.pending contentLen
  pure (.ready header data,
    { r with decoded := r.decoded + contentLen, pending := pending })

def advanceLoop (header : RecordHeader) (amount remain : Nat) (r : RecordReader) :
    Exec (Progress × RecordReader) :=
  if r.pending < amount then do
    let _ <- slice r.buf (r.decoded + r.pending) (r.decoded + r.pending + remain)
    pure (.awaits (.body header amount remain), r)
  else
    consume header { r with bodyActive := false, hdrHave := 0 }

/-- Only what is left of the body is read: a resumed read may have a part of it. -/
def advance (header : RecordHeader) (amount : Nat) (r : RecordReader) :
    Exec (Progress × RecordReader) := do
  match <- ensureContiguous amount r with
  | .error e => pure (.failed e, r)
  | .ok r => do
      let remain <- sub amount r.pending
      advanceLoop header amount remain r

def headerLoop (r : RecordReader) : Exec (Progress × RecordReader) :=
  if r.hdrHave < RecordHeader.len then do
    let _ <- slice r.hdr r.hdrHave r.hdr.length
    pure (.awaits .header, r)
  else
    match RecordHeader.decode r.hdr with
    | .error e => pure (.failed e, r)
    | .ok header =>
        let r := { r with bodyLen := header.contentLength, bodyActive := true }
        advance header r.bodyLen r

def read (r : RecordReader) : Exec (Progress × RecordReader) :=
  if r.bodyActive then
    match RecordHeader.decode r.hdr with
    | .error e => pure (.failed e, r)
    | .ok header => advance header r.bodyLen r
  else
    headerLoop r

def resume (bytes : List UInt8) (a : Await) (r : RecordReader) :
    Exec (Progress × RecordReader) :=
  match a with
  | .header =>
      headerLoop
        { r with
          hdr := splice r.hdr r.hdrHave bytes
          hdrHave := r.hdrHave + bytes.length }
  | .body header amount remain => do
      let remain <- sub remain bytes.length
      advanceLoop header amount remain
        { r with
          buf := splice r.buf (r.decoded + r.pending) bytes
          pending := r.pending + bytes.length }

/-!
## The reader between its caller and its transport
-/

structure Connection where
  reader : RecordReader
  /-- The future of the read in progress waits here. -/
  future : Option Await
  /-- What the transport has not yet handed over. -/
  stream : List UInt8
  /-- Ghost: what has been handed to `ServerRecord::decode`. -/
  delivered : List (RecordHeader × List UInt8)
  /-- Ghost: the errors that reads have returned, those of the transport aside. -/
  errors : List TlsError
  deriving DecidableEq, Repr

inductive Event where
  | called
  /-- The transport reads `n` bytes. -/
  | arrived (n : Nat)
  | dropped
  /-- The transport reports an error or the end of the stream. -/
  | transportFailed
  /-- The record that was handed over is decrypted in place. -/
  | decrypted (bytes : List UInt8)
  deriving DecidableEq, Repr

def Enabled (e : Event) (c : Connection) : Prop :=
  match e with
  | .called => c.future = none
  | .arrived n =>
      exists a, c.future = some a ∧ 0 < n ∧ n ≤ a.requested c.reader ∧
        n ≤ c.stream.length
  | .dropped => c.future ≠ none
  | .transportFailed => c.future ≠ none
  | .decrypted bytes => c.future = none ∧ bytes.length = c.reader.decoded

def settle (c : Connection) : Progress × RecordReader -> Connection
  | (.awaits a, r) => { c with reader := r, future := some a }
  | (.ready header body, r) =>
      { c with reader := r, future := none, delivered := c.delivered ++ [(header, body)] }
  | (.failed e, r) => { c with reader := r, future := none, errors := c.errors ++ [e] }

def next (e : Event) (c : Connection) : Exec Connection :=
  match e with
  | .called => do
      let result <- read c.reader
      pure (settle c result)
  | .arrived n =>
      match c.future with
      | none => pure c
      | some a => do
          let result <- resume (c.stream.take n) a c.reader
          pure (settle { c with stream := c.stream.drop n } result)
  | .dropped => pure { c with future := none }
  | .transportFailed => pure { c with future := none }
  | .decrypted bytes =>
      pure { c with reader :=
        { c.reader with buf := bytes ++ c.reader.buf.drop c.reader.decoded } }

def step (e : Event) (c c' : Connection) : Prop :=
  Enabled e c ∧ next e c = .ok c'

def start (buf stream : List UInt8) : Connection :=
  { reader := RecordReader.new buf
    future := none
    stream := stream
    delivered := []
    errors := [] }

end RecordReader
end EmbeddedTls
end TWA
