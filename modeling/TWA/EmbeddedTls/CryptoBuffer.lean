import TWA.EmbeddedTls.KeySchedule
import TWA.Foundation.Emitters

/-!
# Encoding what the client sends

Messages are encoded into a region on the write buffer.  A vector is encoded
behind its length, which is filled in when the vector is there.
-/

namespace TWA
namespace EmbeddedTls

open Foundation
open Foundation.Exec
open ParseBuffer (numberBytes)

abbrev CryptoBuffer : Type := Region UInt8

abbrev Encode (alpha : Type) : Type := Emitter UInt8 ProtocolError alpha

def ProtocolError.insufficientSpace : ProtocolError := .record .insufficientSpace

def ProtocolError.encodeError : ProtocolError := .record .encodeError

/-- An encoder whose failure is handed on as an error of encoding. -/
def orEncodeError (op : Encode Unit) : Encode Unit :=
  Emitter.mapError (fun _ => ProtocolError.encodeError) op

namespace CryptoBuffer

def wrap (buf : List UInt8) : CryptoBuffer :=
  { buf := buf, offset := 0, len := 0 }

def wrapWithPos (buf : List UInt8) (pos : Nat) : CryptoBuffer :=
  { buf := buf, offset := 0, len := pos }

def capacity (b : CryptoBuffer) : Nat :=
  b.buf.length

def space (b : CryptoBuffer) : Exec Nat :=
  sub b.capacity (b.offset + b.len)

def asSlice (b : CryptoBuffer) : Exec (List UInt8) :=
  slice b.buf b.offset (b.offset + b.len)

def push (byte : UInt8) : Encode Unit := fun b => do
  let space <- space b
  if space > 0 then do
    let buf <- store b.buf (b.offset + b.len) byte
    pure (.ok (), { b with buf := buf, len := b.len + 1 })
  else
    pure (.error .insufficientSpace, b)

def extendFromSlice (other : List UInt8) : Encode Unit := fun b => do
  let space <- space b
  if space < other.length then
    pure (.error .insufficientSpace, b)
  else do
    let start := b.offset + b.len
    let _ <- slice b.buf start (start + other.length)
    pure (.ok (), { b with buf := splice b.buf start other, len := b.len + other.length })

def pushU16 (num : Nat) : Encode Unit :=
  extendFromSlice (numberBytes 2 num)

def pushU24 (num : Nat) : Encode Unit :=
  extendFromSlice (numberBytes 3 num)

def pushU32 (num : Nat) : Encode Unit :=
  extendFromSlice (numberBytes 4 num)

def set (idx : Nat) (val : UInt8) : Encode Unit := fun b =>
  if idx < b.len then do
    let buf <- store b.buf (b.offset + idx) val
    pure (.ok (), { b with buf := buf })
  else
    pure (.error .insufficientSpace, b)

def setAll (idx : Nat) : List UInt8 -> Encode Unit
  | [] => Emitter.succeed ()
  | val :: vals => Emitter.andThen (set idx val) (fun _ => setAll (idx + 1) vals)

def setU16 (idx val : Nat) : Encode Unit :=
  setAll idx (numberBytes 2 val)

def setU24 (idx val : Nat) : Encode Unit :=
  setAll idx (numberBytes 3 val)

def truncate (len : Nat) (b : CryptoBuffer) : CryptoBuffer :=
  if len ≤ b.capacity - b.offset then { b with len := len } else b

def moveTo (offset : Nat) (b : CryptoBuffer) : Exec CryptoBuffer := do
  let newLen <- sub (b.len + b.offset) offset
  pure { b with offset := offset, len := newLen }

def forward (b : CryptoBuffer) : Exec CryptoBuffer :=
  moveTo b.len b

def rewind (b : CryptoBuffer) : Exec CryptoBuffer :=
  moveTo 0 b

def withU8Length (op : Encode Unit) : Encode Unit :=
  Emitter.reserve (push 0) op (fun lenPos len => set lenPos (UInt8.ofNat len))

def withU16Length (op : Encode Unit) : Encode Unit :=
  Emitter.reserve (pushU16 0) op setU16

def withU24Length (op : Encode Unit) : Encode Unit :=
  Emitter.reserve (pushU24 0) op setU24

/-! ## What the operations append -/

def NoRoom (e : ProtocolError) : Prop :=
  e = .insufficientSpace ∨ e = .encodeError

/-- On every region the encoder appends these bytes, or has no room for them. -/
abbrev Encodes (p : Encode Unit) (bytes : List UInt8) : Prop :=
  Emitter.Appends NoRoom p bytes

theorem space_eq {b : CryptoBuffer} (h : b.Valid) :
    b.space = .ok (b.buf.length - (b.offset + b.len)) :=
  sub_of_le h

theorem push_encodes (byte : UInt8) : Encodes (push byte) [byte] := by
  constructor
  · intro b hroom
    have hlt : b.offset + b.len < b.buf.length := hroom
    unfold push
    rw [space_eq hroom.valid, ok_bind, if_pos (by omega), store_of_lt byte hlt, ok_bind]
    unfold Region.append splice
    rw [List.set_eq_take_append_cons_drop, if_pos hlt, List.append_assoc]
    rfl
  · intro b hvalid hroom
    have hfull : ¬ b.offset + b.len < b.buf.length := hroom
    unfold push
    rw [space_eq hvalid, ok_bind, if_neg (by omega)]
    exact ⟨_, _, rfl, Or.inl rfl, rfl⟩

theorem extendFromSlice_encodes (other : List UInt8) :
    Encodes (extendFromSlice other) other := by
  constructor
  · intro b hroom
    have hfit : b.offset + b.len + other.length ≤ b.buf.length := hroom
    unfold extendFromSlice
    rw [space_eq hroom.valid, ok_bind, if_neg (by omega)]
    simp only
    rw [slice_of_le (Nat.le_add_right _ _) hfit, ok_bind]
    rfl
  · intro b hvalid hroom
    have hfull : ¬ b.offset + b.len + other.length ≤ b.buf.length := hroom
    have hfit : b.offset + b.len ≤ b.buf.length := hvalid
    unfold extendFromSlice
    rw [space_eq hvalid, ok_bind, if_pos (by omega)]
    exact ⟨_, _, rfl, Or.inl rfl, rfl⟩

theorem set_eq {b : CryptoBuffer} (h : b.Valid) {idx : Nat} (hidx : idx < b.len)
    (val : UInt8) :
    set idx val b = .ok (.ok (), { b with buf := splice b.buf (b.offset + idx) [val] }) := by
  have hlt : b.offset + idx < b.buf.length := by
    unfold Region.Valid at h
    omega
  unfold set
  rw [if_pos hidx, store_of_lt val hlt, ok_bind]
  unfold splice
  rw [List.set_eq_take_append_cons_drop, if_pos hlt, List.append_assoc]
  rfl

theorem setAll_eq (vals : List UInt8) {b : CryptoBuffer} (h : b.Valid) {idx : Nat}
    (hidx : idx + vals.length ≤ b.len) :
    setAll idx vals b =
      .ok (.ok (), { b with buf := splice b.buf (b.offset + idx) vals }) := by
  induction vals generalizing b idx with
  | nil =>
      unfold setAll
      rw [splice_nil]
      rfl
  | cons val vals ih =>
      rw [List.length_cons] at hidx
      have hroom : b.offset + idx + [val].length ≤ b.buf.length := by
        unfold Region.Valid at h
        rw [List.length_singleton]
        omega
      have hvalid : Region.Valid { b with buf := splice b.buf (b.offset + idx) [val] } := by
        unfold Region.Valid
        simp only [length_splice hroom]
        exact h
      unfold setAll Emitter.andThen
      rw [set_eq h (by omega), ok_bind]
      simp only
      rw [ih hvalid (by simp only; omega)]
      have hbehind := Region.splice_splice_behind hroom vals
      rw [List.length_singleton, Nat.add_assoc] at hbehind
      simp only [hbehind, List.singleton_append]

variable {op : Encode Unit} {bytes : List UInt8}

/-- A vector stands behind its length; the length is as wide as it is meant to be, and
truncated if it does not fit. -/
theorem withLength_encodes {put : Encode Unit} {patch : Nat -> Nat -> Encode Unit}
    (width : Nat) (hput : Encodes put (numberBytes width 0))
    (hpatch : forall (b : CryptoBuffer) (pos n : Nat), b.Valid -> pos + width ≤ b.len ->
      patch pos n b =
        .ok (.ok (), { b with buf := splice b.buf (b.offset + pos) (numberBytes width n) }))
    (hop : Encodes op bytes) :
    Encodes (Emitter.reserve put op patch) (numberBytes width bytes.length ++ bytes) := by
  have hfill (n : Nat) : (numberBytes width n).length = (numberBytes width 0).length := by
    rw [ParseBuffer.length_numberBytes, ParseBuffer.length_numberBytes]
  refine Emitter.Appends.reserve hput hop hfill ?_
  · intro b pos n hvalid hpos
    rw [ParseBuffer.length_numberBytes] at hpos
    exact hpatch b pos n hvalid hpos

theorem setNumber_eq (width : Nat) (b : CryptoBuffer) (pos n : Nat) (hvalid : b.Valid)
    (hpos : pos + width ≤ b.len) :
    setAll pos (numberBytes width n) b =
      .ok (.ok (), { b with buf := splice b.buf (b.offset + pos) (numberBytes width n) }) :=
  setAll_eq _ hvalid (by rw [ParseBuffer.length_numberBytes]; exact hpos)

theorem withU8Length_encodes (hop : Encodes op bytes) :
    Encodes (withU8Length op) (numberBytes 1 bytes.length ++ bytes) := by
  refine withLength_encodes 1 (push_encodes 0) ?_ hop
  intro b pos n hvalid hpos
  exact set_eq hvalid hpos _

theorem withU16Length_encodes (hop : Encodes op bytes) :
    Encodes (withU16Length op) (numberBytes 2 bytes.length ++ bytes) :=
  withLength_encodes 2 (extendFromSlice_encodes _) (setNumber_eq 2) hop

theorem withU24Length_encodes (hop : Encodes op bytes) :
    Encodes (withU24Length op) (numberBytes 3 bytes.length ++ bytes) :=
  withLength_encodes 3 (extendFromSlice_encodes _) (setNumber_eq 3) hop

theorem orEncodeError_encodes (hop : Encodes op bytes) : Encodes (orEncodeError op) bytes :=
  hop.mapError (fun _ _ => Or.inr rfl)

theorem moveTo_eq {b : CryptoBuffer} {offset : Nat} (h : offset ≤ b.len + b.offset) :
    b.moveTo offset =
      .ok { b with offset := offset, len := b.len + b.offset - offset } := by
  unfold moveTo
  rw [sub_of_le h]
  rfl

end CryptoBuffer
end EmbeddedTls
end TWA
