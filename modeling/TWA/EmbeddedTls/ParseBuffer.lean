import Mathlib.Algebra.GroupWithZero.Nat
import TWA.EmbeddedTls.RecordReader
import TWA.Foundation.Parsers

/-!
# Parsing what the server sends

The messages of the server are parsed from a buffer with a position.  The
errors of the parsers are mapped to errors of the protocol on the way up.
-/

namespace TWA
namespace EmbeddedTls

open Foundation
open Foundation.Exec

/-! ## Errors -/

inductive ParseError where
  | insufficientBytes
  | insufficientSpace
  | invalidData
  deriving DecidableEq, Repr

inductive AlertLevel where
  | warning
  | fatal
  deriving DecidableEq, Repr

def AlertLevel.of (num : UInt8) : Option AlertLevel :=
  if num = 1 then some .warning
  else if num = 2 then some .fatal
  else none

def AlertLevel.toByte : AlertLevel -> UInt8
  | warning => 1
  | fatal => 2

inductive AlertDescription where
  | closeNotify
  | unexpectedMessage
  | badRecordMac
  | recordOverflow
  | handshakeFailure
  | badCertificate
  | unsupportedCertificate
  | certificateRevoked
  | certificateExpired
  | certificateUnknown
  | illegalParameter
  | unknownCa
  | accessDenied
  | decodeError
  | decryptError
  | protocolVersion
  | insufficientSecurity
  | internalError
  | inappropriateFallback
  | userCanceled
  | missingExtension
  | unsupportedExtension
  | unrecognizedName
  | badCertificateStatusResponse
  | unknownPskIdentity
  | certificateRequired
  | noApplicationProtocol
  deriving DecidableEq, Repr

namespace AlertDescription

def toByte : AlertDescription -> UInt8
  | closeNotify => 0
  | unexpectedMessage => 10
  | badRecordMac => 20
  | recordOverflow => 22
  | handshakeFailure => 40
  | badCertificate => 42
  | unsupportedCertificate => 43
  | certificateRevoked => 44
  | certificateExpired => 45
  | certificateUnknown => 46
  | illegalParameter => 47
  | unknownCa => 48
  | accessDenied => 49
  | decodeError => 50
  | decryptError => 51
  | protocolVersion => 70
  | insufficientSecurity => 71
  | internalError => 80
  | inappropriateFallback => 86
  | userCanceled => 90
  | missingExtension => 109
  | unsupportedExtension => 110
  | unrecognizedName => 112
  | badCertificateStatusResponse => 113
  | unknownPskIdentity => 115
  | certificateRequired => 116
  | noApplicationProtocol => 120

def all : List AlertDescription :=
  [closeNotify, unexpectedMessage, badRecordMac, recordOverflow, handshakeFailure,
    badCertificate, unsupportedCertificate, certificateRevoked, certificateExpired,
    certificateUnknown, illegalParameter, unknownCa, accessDenied, decodeError,
    decryptError, protocolVersion, insufficientSecurity, internalError,
    inappropriateFallback, userCanceled, missingExtension, unsupportedExtension,
    unrecognizedName, badCertificateStatusResponse, unknownPskIdentity,
    certificateRequired, noApplicationProtocol]

def of (num : UInt8) : Option AlertDescription :=
  all.find? (fun d => d.toByte == num)

theorem of_toByte (d : AlertDescription) : of d.toByte = some d := by
  cases d <;> rfl

end AlertDescription

/-- The errors of parsing, decrypting and the handshake; those of the record layer are
among them. -/
inductive ProtocolError where
  | record (e : TlsError)
  | parse (e : ParseError)
  | connectionClosed
  | unimplemented
  | handshakeAborted (level : AlertLevel) (description : AlertDescription)
  | abortHandshake (level : AlertLevel) (description : AlertDescription)
  | internalError
  | invalidNonceLength
  | invalidTicketLength
  | unknownExtensionType
  | invalidHandshake
  | invalidCipherSuite
  | invalidSignatureScheme
  | invalidSignature
  | invalidExtensionsLength
  | invalidSessionIdLength
  | invalidKeyShare
  | invalidCertificate
  | invalidCertificateEntry
  | invalidCertificateRequest
  | invalidPrivateKey
  | cryptoError
  | decodeError
  deriving DecidableEq, Repr

/-! ## The buffer -/

abbrev ParseBuffer : Type := Cursor UInt8

abbrev Parse (alpha : Type) : Type := Parser UInt8 ParseError alpha

abbrev Decode (alpha : Type) : Type := Parser UInt8 ProtocolError alpha

namespace ParseBuffer

def isEmpty (b : ParseBuffer) : Bool :=
  b.pos == b.buffer.length

def slice (len : Nat) : Parse ParseBuffer := fun b =>
  if b.pos + len ≤ b.buffer.length then do
    let bytes <- Exec.slice b.buffer b.pos (b.pos + len)
    pure (.ok (Cursor.start bytes), b.advance len)
  else
    pure (.error .insufficientBytes, b)

def readU8 : Parse UInt8 := fun b =>
  if b.pos < b.buffer.length then do
    let value <- index b.buffer b.pos
    pure (.ok value, b.advance 1)
  else
    pure (.error .insufficientBytes, b)

def bigEndian (bytes : List UInt8) : Nat :=
  bytes.foldl (fun value byte => value * 256 + byte.toNat) 0

def readNumber (width : Nat) : Parse Nat := fun b =>
  if b.pos + width ≤ b.buffer.length then do
    let bytes <- (List.range width).mapM (fun i => index b.buffer (b.pos + i))
    pure (.ok (bigEndian bytes), b.advance width)
  else
    pure (.error .insufficientBytes, b)

def readU16 : Parse Nat := readNumber 2

def readU24 : Parse Nat := readNumber 3

def readU32 : Parse Nat := readNumber 4

def fill (len : Nat) : Parse (List UInt8) := fun b =>
  if b.pos + len ≤ b.buffer.length then do
    let bytes <- Exec.slice b.buffer b.pos (b.pos + len)
    pure (.ok bytes, b.advance len)
  else
    pure (.error .insufficientBytes, b)

section Lists

variable {err alpha : Type}

def push (capacity : Nat) (full : err) (items : List alpha) (x : alpha) :
    Parser UInt8 err (List alpha) :=
  if items.length < capacity then Parser.succeed (items ++ [x]) else Parser.fail full

def readItems (capacity : Nat) (full : err) (read : Parser UInt8 err alpha) :
    Parser UInt8 err (List alpha) :=
  Parser.whileNonempty (fun items => do
    let x <- read
    push capacity full items x) []

def readList (capacity dataLength : Nat) (read : Parse alpha) : Parse (List alpha) := do
  let data <- slice dataLength
  let (items, _) <- Parser.within data (readItems capacity .insufficientSpace read)
  pure items

end Lists

/-! ## What the operations do on every buffer -/

theorem slice_safe (len : Nat) : (slice len).Safe len Cursor.Valid := by
  intro b hb
  unfold slice
  by_cases hfit : b.pos + len ≤ b.buffer.length
  · refine ⟨.ok (Cursor.start ((b.buffer.take (b.pos + len)).drop b.pos)), len, ?_, hfit, ?_⟩
    · rw [if_pos hfit, slice_of_le (Nat.le_add_right _ _) hfit, ok_bind]
      rfl
    · intro sub hsub
      cases hsub
      exact ⟨Nat.le_refl len, Cursor.start_valid _⟩
  · refine ⟨.error .insufficientBytes, 0, ?_, hb, fun _ h => by cases h⟩
    rw [if_neg hfit]
    rfl

theorem readU8_safe : readU8.Safe 1 (fun _ => True) := by
  intro b hb
  unfold readU8
  by_cases hfit : b.pos < b.buffer.length
  · refine ⟨.ok b.buffer[b.pos], 1, ?_, hfit, fun _ _ => ⟨Nat.le_refl 1, True.intro⟩⟩
    rw [if_pos hfit, index_of_lt hfit]
    rfl
  · refine ⟨.error .insufficientBytes, 0, ?_, hb, fun _ h => by cases h⟩
    rw [if_neg hfit]
    rfl

theorem mapM_index_range (buffer : List UInt8) (pos width : Nat)
    (h : pos + width ≤ buffer.length) :
    (List.range width).mapM (fun i => index buffer (pos + i)) =
      (.ok ((buffer.drop pos).take width) : Exec (List UInt8)) := by
  induction width with
  | zero => rfl
  | succ width ih =>
      have hlt : pos + width < buffer.length := by omega
      rw [List.range_succ, List.mapM_append, ih (by omega), ok_bind, List.mapM_cons,
        index_of_lt hlt, ok_bind, List.mapM_nil, pure_eq_ok, ok_bind, pure_eq_ok, ok_bind,
        pure_eq_ok, List.take_add_one, List.getElem?_drop, List.getElem?_eq_getElem hlt]
      rfl

theorem readNumber_safe (width : Nat) : (readNumber width).Safe width (fun _ => True) := by
  intro b hb
  unfold readNumber
  by_cases hfit : b.pos + width ≤ b.buffer.length
  · refine ⟨.ok (bigEndian ((b.buffer.drop b.pos).take width)), width, ?_, hfit,
      fun _ _ => ⟨Nat.le_refl width, True.intro⟩⟩
    rw [if_pos hfit, mapM_index_range _ _ _ hfit]
    rfl
  · refine ⟨.error .insufficientBytes, 0, ?_, hb, fun _ h => by cases h⟩
    rw [if_neg hfit]
    rfl

theorem fill_safe (len : Nat) : (fill len).Safe len (fun bytes => bytes.length = len) := by
  intro b hb
  unfold fill
  by_cases hfit : b.pos + len ≤ b.buffer.length
  · refine ⟨.ok ((b.buffer.take (b.pos + len)).drop b.pos), len, ?_, hfit, ?_⟩
    · rw [if_pos hfit, slice_of_le (Nat.le_add_right _ _) hfit, ok_bind]
      rfl
    · intro bytes hbytes
      cases hbytes
      refine ⟨Nat.le_refl len, ?_⟩
      simp only [List.length_drop, List.length_take]
      omega
  · refine ⟨.error .insufficientBytes, 0, ?_, hb, fun _ h => by cases h⟩
    rw [if_neg hfit]
    rfl

section Lists

variable {err alpha : Type}

theorem push_safe (capacity : Nat) (full : err) (items : List alpha) (x : alpha) :
    (push capacity full items x).Safe 0 (fun items => items.length ≤ capacity) := by
  unfold push
  apply Parser.Safe.ite
  · intro hroom
    apply Parser.Safe.succeed
    rw [List.length_append, List.length_singleton]
    omega
  · intro _
    exact Parser.Safe.fail full

theorem readItems_safe {capacity : Nat} {full : err} {read : Parser UInt8 err alpha}
    {n : Nat} {Q : alpha -> Prop} (hread : read.Safe n Q) (hn : 1 ≤ n) :
    (readItems capacity full read).Safe 0 (fun items => items.length ≤ capacity) := by
  apply Parser.Safe.whileNonempty
  · intro items _
    refine (hread.bind (fun x _ => push_safe capacity full items x)).mono ?_ (fun _ h => h)
    omega
  · exact Nat.zero_le capacity

theorem readList_safe {capacity dataLength : Nat} {read : Parse alpha} {n : Nat}
    {Q : alpha -> Prop} (hread : read.Safe n Q) (hn : 1 ≤ n) :
    (readList capacity dataLength read).Safe dataLength
      (fun items => items.length ≤ capacity) := by
  refine (slice_safe dataLength).bind (m := 0) ?_
  intro data hdata
  refine (Parser.Safe.within hdata (readItems_safe hread hn)).bind (m := 0) ?_
  intro items hitems
  exact Parser.Safe.succeed hitems

end Lists

/-! ## What the operations read -/

theorem fits_take {b : ParseBuffer} {tok more : List UInt8} (hb : b.Valid)
    (hrest : b.rest = tok ++ more) :
    b.pos + tok.length ≤ b.buffer.length ∧
      (b.buffer.take (b.pos + tok.length)).drop b.pos = tok := by
  refine ⟨Cursor.fits_of_rest hb hrest, ?_⟩
  have hrest' : b.buffer.drop b.pos = tok ++ more := hrest
  rw [List.drop_take, Nat.add_sub_cancel_left, hrest', List.take_left]

theorem slice_reads (tok : List UInt8) :
    (slice tok.length).Reads tok (Cursor.start tok) := by
  intro b more hb hrest
  rcases fits_take hb hrest with ⟨hfit, htake⟩
  unfold slice
  rw [if_pos hfit, slice_of_le (Nat.le_add_right _ _) hfit, ok_bind, htake]
  rfl

theorem fill_reads (tok : List UInt8) : (fill tok.length).Reads tok tok := by
  intro b more hb hrest
  rcases fits_take hb hrest with ⟨hfit, htake⟩
  unfold fill
  rw [if_pos hfit, slice_of_le (Nat.le_add_right _ _) hfit, ok_bind, htake]
  rfl

theorem readU8_reads (value : UInt8) : readU8.Reads [value] value := by
  intro b more hb hrest
  have hfit : b.pos < b.buffer.length := Cursor.fits_of_rest hb hrest
  have hget : b.buffer[b.pos]? = some value := by
    have hhead := congrArg List.head? hrest
    rw [Cursor.rest, List.head?_drop] at hhead
    exact hhead
  unfold readU8
  rw [if_pos hfit, index_of_getElem? hget]
  rfl

theorem readNumber_reads (tok : List UInt8) :
    (readNumber tok.length).Reads tok (bigEndian tok) := by
  intro b more hb hrest
  have hfit := Cursor.fits_of_rest hb hrest
  have htake : (b.buffer.drop b.pos).take tok.length = tok := by
    have hrest' : b.buffer.drop b.pos = tok ++ more := hrest
    rw [hrest', List.take_left]
  unfold readNumber
  rw [if_pos hfit, mapM_index_range _ _ _ hfit, htake]
  rfl

/-! ## Numbers -/

def numberBytes : Nat -> Nat -> List UInt8
  | 0, _ => []
  | width + 1, n => numberBytes width (n / 256) ++ [UInt8.ofNat n]

theorem length_numberBytes (width n : Nat) : (numberBytes width n).length = width := by
  induction width generalizing n with
  | zero => rfl
  | succ width ih => rw [numberBytes, List.length_append, ih, List.length_singleton]

theorem bigEndian_numberBytes {width n : Nat} (h : n < 256 ^ width) :
    bigEndian (numberBytes width n) = n := by
  induction width generalizing n with
  | zero => exact (Nat.lt_one_iff.mp h).symm
  | succ width ih =>
      have hfront : n / 256 < 256 ^ width := by
        rw [Nat.div_lt_iff_lt_mul (by decide), ← Nat.pow_succ]
        exact h
      have hsplit : bigEndian (numberBytes (width + 1) n) =
          bigEndian (numberBytes width (n / 256)) * 256 + (UInt8.ofNat n).toNat := by
        unfold bigEndian
        rw [numberBytes, List.foldl_append]
        rfl
      rw [hsplit, ih hfront, UInt8.toNat_ofNat']
      omega

theorem number_reads {width n : Nat} (h : n < 256 ^ width) :
    (readNumber width).Reads (numberBytes width n) n := by
  have hreads := readNumber_reads (numberBytes width n)
  rw [length_numberBytes, bigEndian_numberBytes h] at hreads
  exact hreads

section Lists

variable {err alpha : Type}

theorem readItems_reads {capacity : Nat} {full : err} {read : Parser UInt8 err alpha}
    {bytes : alpha -> List UInt8} {items : List alpha}
    (hread : forall x, x ∈ items -> bytes x ≠ [] ∧ read.Reads (bytes x) x)
    (hroom : items.length ≤ capacity) :
    (readItems capacity full read).ReadsAll (items.flatMap bytes) items := by
  have hall : (readItems capacity full read).ReadsAll (items.flatMap bytes)
      (items.foldl (fun done x => done ++ [x]) []) := by
    refine Parser.ReadsAll.whileNonempty
      (fun done rest => done.length + rest.length ≤ capacity ∧
        forall x, x ∈ rest -> x ∈ items) ?_ ⟨?_, fun _ h => h⟩
    · intro done x rest hfits
      rcases hfits with ⟨hlen, hmem⟩
      rw [List.length_cons] at hlen
      rcases hread x (hmem x List.mem_cons_self) with ⟨hsome, hreads⟩
      refine ⟨hsome, ?_, ?_, ?_⟩
      · have hpush : (push capacity full done x).Reads [] (done ++ [x]) := by
          unfold push
          rw [if_pos (by omega)]
          exact Parser.Reads.succeed
        have hboth := hreads.bind (f := push capacity full done) hpush
        rw [List.append_nil] at hboth
        exact hboth
      · rw [List.length_append, List.length_singleton]
        omega
      · intro y hy
        exact hmem y (List.mem_cons_of_mem x hy)
    · simpa using hroom
  have hfold : items.foldl (fun done x => done ++ [x]) [] = items := by
    simp [← List.flatMap_def]
  rw [hfold] at hall
  exact hall

theorem readList_reads {capacity : Nat} {read : Parse alpha} {bytes : alpha -> List UInt8}
    {items : List alpha} (hread : forall x, x ∈ items -> bytes x ≠ [] ∧
      read.Reads (bytes x) x) (hroom : items.length ≤ capacity) :
    (readList capacity (items.flatMap bytes).length read).Reads (items.flatMap bytes)
      items := by
  have hwithin : (Parser.within (Cursor.start (items.flatMap bytes))
      (readItems capacity ParseError.insufficientSpace read)).Reads []
        (items, (Cursor.start (items.flatMap bytes)).advance
          (items.flatMap bytes).length) :=
    Parser.Reads.within (Cursor.start_valid _) (readItems_reads hread hroom)
  have hrest := hwithin.bind (f := fun r => pure r.1) Parser.Reads.succeed
  have hall := (slice_reads (items.flatMap bytes)).bind
    (f := fun data => do
      let (items, _) <- Parser.within data (readItems capacity .insufficientSpace read)
      pure items) hrest
  rw [List.append_nil, List.append_nil] at hall
  exact hall

end Lists
end ParseBuffer
end EmbeddedTls
end TWA
