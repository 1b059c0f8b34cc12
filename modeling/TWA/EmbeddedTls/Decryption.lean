import Mathlib.Data.List.Induction
import TWA.EmbeddedTls.ServerHandshake

/-!
# Decrypting records

A record of application data holds a sealed text.  It is decrypted in place, the
padding is dropped, and its last byte says what the content is.  What is inside
is handed to a callback: data as it is, a handshake message by message.  Records
of other types are handed on as they are.
-/

namespace TWA
namespace EmbeddedTls

open Foundation
open Foundation.Exec

/-- The zeros at the end are dropped, unless there is nothing else. -/
def stripPadding (plain : List UInt8) : List UInt8 :=
  match plain.zipIdx.reverse.find? (fun b => b.1 != 0) with
  | some (_, index) => plain.take (index + 1)
  | none => plain

abbrev Callback (sigma : Type) : Type :=
  ServerRecord -> ReadKeySchedule × sigma ->
    Exec (Except ProtocolError Unit × (ReadKeySchedule × sigma))

section Records

variable {sigma : Type} (suite : TlsCipherSuite) (cb : Callback sigma)

def handshakeLoop : Nat -> ParseBuffer -> ReadKeySchedule × sigma ->
    Exec (Except ProtocolError Unit × (ReadKeySchedule × sigma))
  | 0, _, _ => .error .diverges
  | fuel + 1, buf, (keys, s) => do
      let remaining <- sub buf.buffer.length buf.pos
      if remaining > 0 then do
        match <- ServerHandshake.read suite keys.transcript buf with
        | (.error e, _) => pure (.error e, (keys, s))
        | (.ok (inner, transcript), buf) => do
            match <- cb (.handshake inner) ({ keys with transcript := transcript }, s) with
            | (.error e, state) => pure (.error e, state)
            | (.ok _, state) => handshakeLoop fuel buf state
      else
        pure (.ok (), (keys, s))

def handleContent (header : RecordHeader) (start : Nat) (content : List UInt8) :
    ContentType -> ReadKeySchedule × sigma ->
      Exec (Except ProtocolError Unit × (ReadKeySchedule × sigma))
  | .handshake, state =>
      handshakeLoop suite cb (content.length + 1) (Cursor.start content) state
  | .applicationData, state =>
      cb (.applicationData { header := header, start := start, data := content }) state
  | .alert, state => do
      match <- ServerRecord.parseAll Alert.parse content with
      | .ok alert => cb (.alert alert) state
      | .error e => pure (.error e, state)
  | _, state => pure (.error .unimplemented, state)

def handlePlain (header : RecordHeader) (start : Nat) (plain : List UInt8)
    (state : ReadKeySchedule × sigma) :
    Exec (Except ProtocolError Unit × (ReadKeySchedule × sigma)) :=
  let appData := stripPadding plain
  match appData.getLast? with
  | none => .error .unwrapNone
  | some last =>
      match ContentType.of last with
      | none => pure (.error (.record .invalidRecord), state)
      | some contentType => do
          match <- handleContent suite cb header start (appData.take (appData.length - 1))
            contentType state with
          | (.error e, state) => pure (.error e, state)
          | (.ok _, (keys, s)) => do
              let counted <- keys.state.incrementCounter
              pure (.ok (), ({ keys with state := counted }, s))

/-- The answer has the plaintext, which stands where the front of the data was. -/
def decryptRecord (record : ServerRecord) (state : ReadKeySchedule × sigma) :
    Exec (Except ProtocolError Unit × List UInt8 × (ReadKeySchedule × sigma)) :=
  match record with
  | .applicationData d =>
      let keys := state.1.state
      match suite.decrypt keys.key keys.nonce d.header.header d.data with
      | none => pure (.error .cryptoError, [], state)
      | some plain => do
          let (r, state) <- handlePlain suite cb d.header d.start plain state
          pure (r, plain, state)
  | record => do
      let (r, state) <- cb record state
      pure (r, [], state)

end Records

/-! ## The decrypted data -/

structure DecryptedBufferInfo where
  offset : Nat
  len : Nat
  consumed : Nat
  deriving DecidableEq, Repr

namespace DecryptedBufferInfo

def empty : DecryptedBufferInfo :=
  { offset := 0, len := 0, consumed := 0 }

def left (info : DecryptedBufferInfo) : Exec Nat :=
  sub info.len info.consumed

def isEmpty (info : DecryptedBufferInfo) : Exec Bool := do
  let left <- info.left
  pure (left == 0)

end DecryptedBufferInfo

structure HandlerState where
  info : DecryptedBufferInfo
  isOpen : Bool
  deriving DecidableEq, Repr

/-- Data is noted where it stands, tickets are passed over, and the end of the connection
closes it. -/
def DecryptedReadHandler.handle : Callback HandlerState
  | .applicationData d, (keys, s) =>
      pure (.ok (), (keys,
        { s with info := { offset := d.start, len := d.data.length, consumed := 0 } }))
  | .alert a, (keys, s) =>
      if a.description = .closeNotify then
        pure (.error .connectionClosed, (keys, { s with isOpen := false }))
      else
        pure (.error .internalError, (keys, s))
  | .changeCipherSpec, state => pure (.error .internalError, state)
  | .handshake .newSessionTicket, state => pure (.ok (), state)
  | .handshake _, _ => panicked

/-! ## Reading from the decrypted data -/

structure ReadBuffer where
  data : List UInt8
  consumed : Nat
  used : Bool
  deriving DecidableEq, Repr

namespace ReadBuffer

def new (buffer : List UInt8) : ReadBuffer :=
  { data := buffer, consumed := 0, used := false }

def len (b : ReadBuffer) : Exec Nat :=
  sub b.data.length b.consumed

def peek (count : Nat) (b : ReadBuffer) : Exec (List UInt8 × ReadBuffer) := do
  let len <- b.len
  let bytes <- slice b.data b.consumed (b.consumed + min len count)
  pure (bytes, { b with used := true })

def peekAll (b : ReadBuffer) : Exec (List UInt8 × ReadBuffer) := do
  let len <- b.len
  b.peek len

def pop (count : Nat) (b : ReadBuffer) : Exec (List UInt8 × ReadBuffer) := do
  let len <- b.len
  let count := min len count
  let bytes <- slice b.data b.consumed (b.consumed + count)
  pure (bytes, { b with consumed := b.consumed + count, used := true })

def popAll (b : ReadBuffer) : Exec (List UInt8 × ReadBuffer) := do
  let len <- b.len
  b.pop len

/-- How much of the decrypted data is gone when the buffer is dropped: all of it if the
buffer was not used. -/
def dropped (b : ReadBuffer) : Nat :=
  if b.used then b.consumed else b.data.length

end ReadBuffer

inductive Use where
  | peek (count : Nat)
  | peekAll
  | pop (count : Nat)
  | popAll
  deriving DecidableEq, Repr

def Use.apply (use : Use) (b : ReadBuffer) : Exec (List UInt8 × ReadBuffer) :=
  match use with
  | .peek count => b.peek count
  | .peekAll => b.peekAll
  | .pop count => b.pop count
  | .popAll => b.popAll

/-! ## The padding -/

theorem find?_zeros (n k : Nat) :
    ((List.replicate n (0 : UInt8)).zipIdx k).reverse.find? (fun b => b.1 != 0) = none := by
  rw [List.find?_eq_none]
  intro x hx
  rcases List.mem_zipIdx (List.mem_reverse.mp hx) with ⟨_, _, hget⟩
  rw [hget, List.getElem_replicate]
  decide

theorem stripPadding_append (content : List UInt8) {b : UInt8} (n : Nat) (hb : b ≠ 0) :
    stripPadding (content ++ [b] ++ List.replicate n 0) = content ++ [b] := by
  have hfirst : (([b].zipIdx content.length).reverse ++ content.zipIdx.reverse).find?
      (fun b => b.1 != 0) = some (b, content.length) := by
    simp [List.zipIdx, hb]
  unfold stripPadding
  rw [List.zipIdx_append, List.reverse_append, List.find?_append, find?_zeros,
    Option.none_or, List.zipIdx_append, List.reverse_append, Nat.zero_add, hfirst]
  simp only
  rw [List.take_append_of_le_length (by simp), List.take_of_length_le (by simp)]

theorem stripPadding_zeros (n : Nat) :
    stripPadding (List.replicate n 0) = List.replicate n 0 := by
  unfold stripPadding
  rw [find?_zeros]

theorem stripPadding_front (plain : List UInt8) : stripPadding plain <+: plain := by
  unfold stripPadding
  split
  · exact List.take_prefix _ _
  · exact List.prefix_refl _

theorem plain_cases (plain : List UInt8) :
    (exists n, plain = List.replicate n 0) ∨
      exists content b n, b ≠ 0 ∧ plain = content ++ [b] ++ List.replicate n 0 := by
  induction plain using List.reverseRecOn with
  | nil => exact Or.inl ⟨0, rfl⟩
  | append_singleton front b ih =>
      by_cases hb : b = 0
      · rw [hb]
        rcases ih with ⟨n, hfront⟩ | ⟨content, c, n, hc, hfront⟩
        · left
          exact ⟨n + 1, by rw [hfront, List.replicate_succ']⟩
        · right
          refine ⟨content, c, n + 1, hc, ?_⟩
          rw [hfront, List.replicate_succ', List.append_assoc (content ++ [c])]
      · right
        exact ⟨front, b, 0, hb, by rw [List.replicate_zero, List.append_nil]⟩

end EmbeddedTls
end TWA
