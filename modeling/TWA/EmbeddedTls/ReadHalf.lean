import TWA.EmbeddedTls.Decryption

/-!
# The reading half of a connection

A call that wants decrypted data reads records until there is some.  What is
left of it stays in the buffer of the record reader, from where later calls take
it; the next record is read only when nothing is left.  As for the reader of
records, a call is modelled by the stretches of code between two waits.
-/

namespace TWA
namespace EmbeddedTls

open Foundation
open Foundation.Exec

structure ReadHalf where
  opened : Bool
  keys : ReadKeySchedule
  recordReader : RecordReader
  decrypted : DecryptedBufferInfo
  /-- Ghost: the decrypted bytes that are gone. -/
  taken : List UInt8
  /-- Ghost: the records that the reader has handed over. -/
  handed : List (RecordHeader × List UInt8)
  /-- Ghost: the plaintexts of the records that were decrypted and handled. -/
  accepted : List (List UInt8)
  deriving DecidableEq, Repr

namespace ReadHalf

inductive Caller where
  /-- Fill a slice of `room` bytes. -/
  | read (room : Nat)
  | fillBuf
  /-- Use the buffer, and then drop it or give it back as it was. -/
  | readBuffered (uses : List Use) (revert : Bool)
  deriving DecidableEq, Repr

inductive Progress where
  | awaits (a : RecordReader.Await)
  | returned (result : Except ProtocolError (List UInt8))

def window (c : ReadHalf) : List UInt8 :=
  (c.recordReader.buf.take (c.decrypted.offset + c.decrypted.len)).drop
    (c.decrypted.offset + c.decrypted.consumed)

def createReadBuffer (c : ReadHalf) : Exec ReadBuffer := do
  let bytes <- slice c.recordReader.buf (c.decrypted.offset + c.decrypted.consumed)
    (c.decrypted.offset + c.decrypted.len)
  pure (ReadBuffer.new bytes)

def release (b : ReadBuffer) (c : ReadHalf) : ReadHalf :=
  { c with
    decrypted := { c.decrypted with consumed := c.decrypted.consumed + b.dropped }
    taken := c.taken ++ b.data.take b.dropped }

def useAll : List Use -> ReadBuffer -> Exec (List UInt8 × ReadBuffer)
  | [], b => pure ([], b)
  | use :: uses, b => do
      let (bytes, b) <- use.apply b
      let (more, b) <- useAll uses b
      pure (bytes ++ more, b)

def finish (caller : Caller) (c : ReadHalf) : Exec (List UInt8 × ReadHalf) := do
  let b <- c.createReadBuffer
  match caller with
  | .read room => do
      let (bytes, b) <- b.pop room
      pure (bytes, c.release b)
  | .fillBuf => do
      let (bytes, b) <- b.peekAll
      pure (bytes, c.release b)
  | .readBuffered uses revert => do
      let (bytes, b) <- useAll uses b
      pure (bytes, if revert then c else c.release b)

def consume (amt : Nat) (c : ReadHalf) : Exec ReadHalf := do
  let b <- c.createReadBuffer
  let (_, b) <- b.pop amt
  pure (c.release b)

section Calls

variable (suite : TlsCipherSuite)

/-- A record has been handed over: its body stands in front of what is still to be
decoded, and is decrypted there. -/
def processRecord (header : RecordHeader) (body : List UInt8) (c : ReadHalf) :
    Exec (Except ProtocolError Unit × ReadHalf) := do
  let c := { c with handed := c.handed ++ [(header, body)] }
  let start <- sub c.recordReader.decoded header.contentLength
  match <- ServerRecord.decode suite header start body c.keys.transcript with
  | (.error e, transcript) =>
      pure (.error e, { c with keys := { c.keys with transcript := transcript } })
  | (.ok record, transcript) => do
      let (r, plain, keys, s) <- decryptRecord suite DecryptedReadHandler.handle record
        ({ c.keys with transcript := transcript },
          { info := c.decrypted, isOpen := c.opened })
      pure (r,
        { c with
          opened := s.isOpen
          keys := keys
          recordReader :=
            { c.recordReader with buf := splice c.recordReader.buf start plain }
          decrypted := s.info
          accepted :=
            match r, record with
            | .ok _, .applicationData _ => c.accepted ++ [plain]
            | _, _ => c.accepted })

def recordRead (k : ReadHalf -> Exec (Progress × ReadHalf)) :
    RecordReader.Progress × RecordReader -> ReadHalf -> Exec (Progress × ReadHalf)
  | (.awaits a, r), c => pure (.awaits a, { c with recordReader := r })
  | (.failed e, r), c => pure (.returned (.error (.record e)), { c with recordReader := r })
  | (.ready header body, r), c => do
      match <- processRecord suite header body { c with recordReader := r } with
      | (.error e, c) => pure (.returned (.error e), c)
      | (.ok _, c) => k c

/-- The loop of `read_buffered` up to its next wait.  Behind a record the reader has
nothing of the next one, so it waits before the loop comes around again. -/
def readLoop (caller : Caller) : Nat -> ReadHalf -> Exec (Progress × ReadHalf)
  | 0, _ => .error .diverges
  | fuel + 1, c => do
      let empty <- c.decrypted.isEmpty
      if empty then do
        let progress <- RecordReader.read c.recordReader
        recordRead suite (readLoop caller fuel) progress c
      else do
        let (bytes, c) <- finish caller c
        pure (.returned (.ok bytes), c)

def call (caller : Caller) (c : ReadHalf) : Exec (Progress × ReadHalf) :=
  if caller = .read 0 then
    pure (.returned (.ok []), c)
  else if c.opened then
    readLoop suite caller 2 c
  else
    pure (.returned (.error (.record .missingHandshake)), c)

def resume (bytes : List UInt8) (a : RecordReader.Await) (caller : Caller) (c : ReadHalf) :
    Exec (Progress × ReadHalf) := do
  let progress <- RecordReader.resume bytes a c.recordReader
  recordRead suite (readLoop suite caller 2) progress c

end Calls

/-! ## The half between its caller and its transport -/

structure State where
  half : ReadHalf
  /-- The future of the call in progress waits here. -/
  future : Option (Caller × RecordReader.Await)
  /-- What the transport has not yet handed over. -/
  stream : List UInt8
  /-- Ghost: what `read` has returned. -/
  got : List UInt8
  /-- Ghost: the errors that calls have returned, those of the transport aside. -/
  errors : List ProtocolError
  deriving DecidableEq, Repr

inductive Event where
  | called (caller : Caller)
  | consumed (amt : Nat)
  /-- The transport reads `n` bytes. -/
  | arrived (n : Nat)
  | dropped
  /-- The transport reports an error or the end of the stream. -/
  | transportFailed
  deriving DecidableEq, Repr

def Enabled (e : Event) (s : State) : Prop :=
  match e with
  | .called _ => s.future = none
  | .consumed _ => s.future = none
  | .arrived n =>
      exists caller a, s.future = some (caller, a) ∧ 0 < n ∧
        n ≤ a.requested s.half.recordReader ∧ n ≤ s.stream.length
  | .dropped => s.future ≠ none
  | .transportFailed => s.future ≠ none

def gotten (caller : Caller) (bytes : List UInt8) : List UInt8 :=
  match caller with
  | .read _ => bytes
  | _ => []

def settle (caller : Caller) (s : State) : Progress × ReadHalf -> State
  | (.awaits a, c) => { s with half := c, future := some (caller, a) }
  | (.returned (.ok bytes), c) =>
      { s with half := c, future := none, got := s.got ++ gotten caller bytes }
  | (.returned (.error e), c) =>
      { s with half := c, future := none, errors := s.errors ++ [e] }

def next (suite : TlsCipherSuite) (e : Event) (s : State) : Exec State :=
  match e with
  | .called caller => do
      let result <- call suite caller s.half
      pure (settle caller s result)
  | .consumed amt => do
      let c <- consume amt s.half
      pure { s with half := c }
  | .arrived n =>
      match s.future with
      | none => pure s
      | some (caller, a) => do
          let result <- resume suite (s.stream.take n) a caller s.half
          pure (settle caller { s with stream := s.stream.drop n } result)
  | .dropped => pure { s with future := none }
  | .transportFailed => pure { s with future := none }

def step (suite : TlsCipherSuite) (e : Event) (s t : State) : Prop :=
  Enabled e s ∧ next suite e s = .ok t

def ready (e : Event) (s : State) : Bool :=
  match e, s.future with
  | .called _, future => future.isNone
  | .consumed _, future => future.isNone
  | .arrived n, some (_, a) =>
      decide (0 < n ∧ n ≤ a.requested s.half.recordReader ∧ n ≤ s.stream.length)
  | .arrived _, none => false
  | .dropped, future => future.isSome
  | .transportFailed, future => future.isSome

theorem ready_iff (e : Event) (s : State) : ready e s = true <-> Enabled e s := by
  unfold ready Enabled
  cases e <;> rcases s.future with _ | ⟨caller, a⟩ <;> simp

def perform (suite : TlsCipherSuite) (s : State) (e : Event) : Option State :=
  if ready e s then (next suite e s).toOption else none

theorem perform_step {suite : TlsCipherSuite} (s : State) (e : Event) (t : State)
    (h : perform suite s e = some t) : step suite e s t := by
  unfold perform at h
  by_cases hready : ready e s = true
  · rw [if_pos hready] at h
    refine ⟨(ready_iff e s).mp hready, ?_⟩
    cases hnext : next suite e s with
    | error f =>
        rw [hnext] at h
        cases h
    | ok u =>
        rw [hnext] at h
        cases h
        rfl
  · rw [if_neg hready] at h
    cases h

def start (keys : ReadKeySchedule) (reader : RecordReader) (stream : List UInt8) : State :=
  { half :=
      { opened := true
        keys := keys
        recordReader := reader
        decrypted := DecryptedBufferInfo.empty
        taken := []
        handed := []
        accepted := [] }
    future := none
    stream := stream
    got := []
    errors := [] }

end ReadHalf
end EmbeddedTls
end TWA
