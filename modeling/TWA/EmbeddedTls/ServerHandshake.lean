import TWA.EmbeddedTls.Extensions
import TWA.EmbeddedTls.KeySchedule

/-!
# The messages of the server

A handshake message is a type, a length and a body.  The body is parsed field by
field and not by its length, and the bytes that have been read are digested.  A
record holds one such message, an alert, a change of the cipher, or data that is
still to be decrypted.
-/

namespace TWA
namespace EmbeddedTls

open Foundation
open Foundation.Exec
open ParseBuffer

inductive HandshakeType where
  | clientHello
  | serverHello
  | newSessionTicket
  | endOfEarlyData
  | encryptedExtensions
  | certificate
  | certificateRequest
  | certificateVerify
  | finished
  | keyUpdate
  | messageHash
  deriving DecidableEq, Repr

namespace HandshakeType

def toByte : HandshakeType -> UInt8
  | clientHello => 1
  | serverHello => 2
  | newSessionTicket => 4
  | endOfEarlyData => 5
  | encryptedExtensions => 8
  | certificate => 11
  | certificateRequest => 13
  | certificateVerify => 15
  | finished => 20
  | keyUpdate => 24
  | messageHash => 254

def all : List HandshakeType :=
  [clientHello, serverHello, newSessionTicket, endOfEarlyData, encryptedExtensions,
    certificate, certificateRequest, certificateVerify, finished, keyUpdate, messageHash]

def parse : Parse HandshakeType :=
  parseCode readU8 all toByte

end HandshakeType

inductive CipherSuite where
  | tlsAes128GcmSha256
  | tlsAes256GcmSha384
  | tlsChacha20Poly1305Sha256
  | tlsAes128CcmSha256
  | tlsAes128Ccm8Sha256
  | tlsPskAes128GcmSha256
  deriving DecidableEq, Repr

namespace CipherSuite

def asU16 : CipherSuite -> Nat
  | tlsAes128GcmSha256 => 0x1301
  | tlsAes256GcmSha384 => 0x1302
  | tlsChacha20Poly1305Sha256 => 0x1303
  | tlsAes128CcmSha256 => 0x1304
  | tlsAes128Ccm8Sha256 => 0x1305
  | tlsPskAes128GcmSha256 => 0x00A8

def all : List CipherSuite :=
  [tlsAes128GcmSha256, tlsAes256GcmSha384, tlsChacha20Poly1305Sha256, tlsAes128CcmSha256,
    tlsAes128Ccm8Sha256, tlsPskAes128GcmSha256]

def parse : Parse CipherSuite :=
  parseCode readU16 all asU16

end CipherSuite

/-! ## Bodies -/

def orElse {alpha : Type} (e : ProtocolError) (p : Parse alpha) : Decode alpha :=
  Parser.mapError (fun _ => e) p

def orFail {alpha : Type} (p : Parse alpha) : Decode alpha :=
  Parser.mapError ProtocolError.parse p

structure ServerHello where
  extensions : List (ExtensionType × ExtensionData)
  deriving DecidableEq, Repr

namespace ServerHello

def parse : Decode ServerHello := do
  let _ <- orElse .invalidHandshake readU16
  let _ <- orFail (fill 32)
  let sessionIdLength <- orElse .invalidSessionIdLength readU8
  let _ <- orElse .invalidSessionIdLength (slice sessionIdLength.toNat)
  let _ <- orElse .invalidCipherSuite CipherSuite.parse
  let _ <- orFail readU8
  let extensions <- ExtensionGroup.parseVector 4 ExtensionGroup.serverHello
  pure { extensions := extensions }

def keyShare (hello : ServerHello) : Option KeyShareEntry :=
  hello.extensions.findSome? (fun extension =>
    match extension.2 with
    | .keyShare entry => some entry
    | _ => none)

end ServerHello

inductive CertificateEntryRef where
  | x509 (cert : List UInt8)
  | rawPublicKey (key : List UInt8)
  deriving DecidableEq, Repr

namespace CertificateEntryRef

def parse : Decode CertificateEntryRef := do
  let entryLen <- orElse .invalidCertificateEntry readU24
  let cert <- orElse .invalidCertificateEntry (slice entryLen)
  let _ <- ExtensionGroup.parseVector 2 ExtensionGroup.certificate
  pure (.x509 cert.buffer)

end CertificateEntryRef

structure CertificateRef where
  rawEntries : List UInt8
  requestContext : List UInt8
  entries : List CertificateEntryRef
  deriving DecidableEq, Repr

namespace CertificateRef

def parse : Decode CertificateRef := do
  let requestContextLen <- orElse .invalidCertificate readU8
  let requestContext <- orElse .invalidCertificate (slice requestContextLen.toNat)
  let entriesLen <- orElse .invalidCertificate readU24
  let rawEntries <- orElse .invalidCertificate (slice entriesLen)
  let (entries, _) <- Parser.within rawEntries
    (readItems 16 ProtocolError.decodeError CertificateEntryRef.parse)
  pure
    { rawEntries := rawEntries.buffer
      requestContext := requestContext.buffer
      entries := entries }

end CertificateRef

structure CertificateRequestRef where
  requestContext : List UInt8
  deriving DecidableEq, Repr

def CertificateRequestRef.parse : Decode CertificateRequestRef := do
  let requestContextLen <- orElse .invalidCertificateRequest readU8
  let requestContext <- orElse .invalidCertificateRequest (slice requestContextLen.toNat)
  let _ <- ExtensionGroup.parseVector 6 ExtensionGroup.certificateRequest
  pure { requestContext := requestContext.buffer }

structure CertificateVerifyRef where
  signatureScheme : SignatureScheme
  signature : List UInt8
  deriving DecidableEq, Repr

def CertificateVerifyRef.parse : Decode CertificateVerifyRef := do
  let signatureScheme <- orElse .invalidSignatureScheme SignatureScheme.parse
  let len <- orElse .invalidSignature readU16
  let signature <- orElse .invalidSignature (slice len)
  pure { signatureScheme := signatureScheme, signature := signature.buffer }

structure Finished where
  verify : List UInt8
  /-- The hash of the messages before this one. -/
  hash : Option (List UInt8)
  deriving DecidableEq, Repr

def Finished.parse (hashLen : Nat) : Decode Finished := do
  let verify <- orFail (fill hashLen)
  pure { verify := verify, hash := none }

def EncryptedExtensions.parse : Decode Unit := do
  let _ <- ExtensionGroup.parseVector 16 ExtensionGroup.encryptedExtensions
  pure ()

def NewSessionTicket.parse : Decode Unit := do
  let _ <- orFail readU32
  let _ <- orFail readU32
  let nonceLength <- orFail readU8
  let _ <- orElse .invalidNonceLength (slice nonceLength.toNat)
  let ticketLength <- orFail readU16
  let _ <- orElse .invalidTicketLength (slice ticketLength)
  let _ <- ExtensionGroup.parseVector 1 ExtensionGroup.newSessionTicket
  pure ()

/-! ## Messages -/

inductive ServerHandshake where
  | serverHello (hello : ServerHello)
  | encryptedExtensions
  | newSessionTicket
  | certificate (cert : CertificateRef)
  | certificateRequest (request : CertificateRequestRef)
  | certificateVerify (verify : CertificateVerifyRef)
  | finished (f : Finished)
  deriving DecidableEq, Repr

namespace ServerHandshake

section Messages

variable (suite : TlsCipherSuite)

def parseBody : HandshakeType -> Decode ServerHandshake
  | .serverHello => serverHello <$> ServerHello.parse
  | .newSessionTicket => (fun _ => newSessionTicket) <$> NewSessionTicket.parse
  | .encryptedExtensions => (fun _ => encryptedExtensions) <$> EncryptedExtensions.parse
  | .certificate => certificate <$> CertificateRef.parse
  | .certificateRequest => certificateRequest <$> CertificateRequestRef.parse
  | .certificateVerify => certificateVerify <$> CertificateVerifyRef.parse
  | .finished => finished <$> Finished.parse suite.hashLen
  | _ => Parser.fail .unimplemented

/-- The length of the body is read, and not used. -/
def parse : Decode ServerHandshake := do
  let handshakeType <- orElse .invalidHandshake HandshakeType.parse
  let _ <- orElse .invalidHandshake readU24
  parseBody suite handshakeType

def withHash (transcript : Transcript) : ServerHandshake -> ServerHandshake
  | finished f => finished { f with hash := some (suite.hash transcript) }
  | handshake => handshake

def read (transcript : Transcript) : Decode (ServerHandshake × Transcript) := fun buf => do
  match <- parse suite buf with
  | (.ok handshake, buf') => do
      let bytes <- Exec.slice buf'.buffer buf.pos buf'.pos
      pure (.ok (withHash suite transcript handshake, transcript ++ bytes), buf')
  | (.error e, buf') => pure (.error e, buf')

theorem parse_reads {suite : TlsCipherSuite} {handshakeType : HandshakeType}
    {len body : List UInt8} {message : ServerHandshake} (hlen : len.length = 3)
    (hbody : (parseBody suite handshakeType).Reads body message) :
    (parse suite).Reads (handshakeType.toByte :: (len ++ body)) message := by
  have htype : HandshakeType.parse.Reads [handshakeType.toByte] handshakeType := by
    refine parseCode_reads (readU8_reads _) ?_
    cases handshakeType <;> rfl
  have hnumber := readNumber_reads len
  rw [hlen] at hnumber
  exact (htype.mapError _).bind ((hnumber.mapError _).bind hbody)

end Messages
end ServerHandshake

structure Alert where
  level : AlertLevel
  description : AlertDescription
  deriving DecidableEq, Repr

def Alert.parse : Decode Alert := do
  let level <- orFail readU8
  let desc <- orFail readU8
  match AlertLevel.of level, AlertDescription.of desc with
  | some level, some description => pure { level := level, description := description }
  | _, _ => Parser.fail .decodeError

/-! ## Records -/

/-- A failed assertion, or code that is not there, ends the program like the unwrapping
of nothing. -/
def panicked {alpha : Type} : Exec alpha :=
  .error .unwrapNone

structure ApplicationData where
  header : RecordHeader
  start : Nat
  data : List UInt8
  deriving DecidableEq, Repr

inductive ServerRecord where
  | handshake (h : ServerHandshake)
  | changeCipherSpec
  | alert (a : Alert)
  | applicationData (d : ApplicationData)
  deriving DecidableEq, Repr

namespace ServerRecord

def parseAll {alpha : Type} (p : Decode alpha) (data : List UInt8) :
    Exec (Except ProtocolError alpha) := do
  let (r, _) <- p (Cursor.start data)
  pure r

def decode (suite : TlsCipherSuite) (header : RecordHeader) (start : Nat)
    (data : List UInt8) (transcript : Transcript) :
    Exec (Except ProtocolError ServerRecord × Transcript) :=
  if header.contentLength ≠ data.length then
    panicked
  else
    match ContentType.of (header.header.getD 0 0) with
    | none => .error .unwrapNone
    | some .invalid => pure (.error .unimplemented, transcript)
    | some .changeCipherSpec => pure (.ok .changeCipherSpec, transcript)
    | some .alert => do
        match <- parseAll Alert.parse data with
        | .ok a => pure (.ok (.alert a), transcript)
        | .error e => pure (.error e, transcript)
    | some .handshake => do
        match <- parseAll (ServerHandshake.read suite transcript) data with
        | .ok (h, transcript) => pure (.ok (.handshake h), transcript)
        | .error e => pure (.error e, transcript)
    | some .applicationData =>
        pure (.ok (.applicationData { header := header, start := start, data := data }),
          transcript)

end ServerRecord

/-! ## On every buffer -/

section Safety

theorem orElse_safe {alpha : Type} {p : Parse alpha} {n : Nat} {Q : alpha -> Prop}
    (hp : p.Safe n Q) (e : ProtocolError) : (orElse e p).Safe n Q :=
  hp.mapError _

theorem orFail_safe {alpha : Type} {p : Parse alpha} {n : Nat} {Q : alpha -> Prop}
    (hp : p.Safe n Q) : (orFail p).Safe n Q :=
  hp.mapError _

theorem field_safe {alpha beta : Type} {p : Decode alpha} {n : Nat} {Q : alpha -> Prop}
    (hp : p.Safe n Q) {f : alpha -> Decode beta} {R : beta -> Prop}
    (hf : forall a, Q a -> (f a).Safe 0 R) : (p >>= f).Safe 0 R :=
  (hp.bind hf).mono (Nat.zero_le _) (fun _ h => h)

theorem done_safe {alpha : Type} (a : alpha) :
    (pure a : Decode alpha).Safe 0 (fun _ => True) :=
  Parser.Safe.succeed True.intro

theorem bound_safe {alpha beta : Type} {p : Decode alpha} {n : Nat} {Q : alpha -> Prop}
    (hp : p.Safe n Q) (g : alpha -> beta) : (g <$> p).Safe 0 (fun _ => True) := by
  have hbind : (p >>= fun a => pure (g a)).Safe 0 (fun _ => True) :=
    field_safe hp (fun a _ => done_safe (g a))
  exact hbind

theorem serverHello_safe : ServerHello.parse.Safe 0 (fun _ => True) := by
  refine field_safe (orElse_safe (readNumber_safe 2) _) ?_
  intro _ _
  refine field_safe (orFail_safe (fill_safe 32)) ?_
  intro _ _
  refine field_safe (orElse_safe readU8_safe _) ?_
  intro sessionIdLength _
  refine field_safe (orElse_safe (slice_safe sessionIdLength.toNat) _) ?_
  intro _ _
  refine field_safe (orElse_safe (parseCode_safe (readNumber_safe 2) _ _) _) ?_
  intro _ _
  refine field_safe (orFail_safe readU8_safe) ?_
  intro _ _
  refine field_safe (ExtensionGroup.parseVector_safe ExtensionGroup.serverHello_safe 4) ?_
  intro extensions _
  exact done_safe _

theorem certificateEntry_safe : CertificateEntryRef.parse.Safe 3 (fun _ => True) := by
  refine (orElse_safe (readNumber_safe 3) _).bind (m := 0) ?_
  intro entryLen _
  refine field_safe (orElse_safe (slice_safe entryLen) _) ?_
  intro cert _
  refine field_safe (ExtensionGroup.parseVector_safe ExtensionGroup.certificate_safe 2) ?_
  intro _ _
  exact done_safe _

theorem certificate_safe : CertificateRef.parse.Safe 0 (fun _ => True) := by
  refine field_safe (orElse_safe readU8_safe _) ?_
  intro requestContextLen _
  refine field_safe (orElse_safe (slice_safe requestContextLen.toNat) _) ?_
  intro requestContext _
  refine field_safe (orElse_safe (readNumber_safe 3) _) ?_
  intro entriesLen _
  refine field_safe (orElse_safe (slice_safe entriesLen) _) ?_
  intro rawEntries hraw
  refine field_safe (Parser.Safe.within hraw (readItems_safe certificateEntry_safe
    (by decide))) ?_
  intro entries _
  exact done_safe _

theorem certificateRequest_safe : CertificateRequestRef.parse.Safe 0 (fun _ => True) := by
  refine field_safe (orElse_safe readU8_safe _) ?_
  intro requestContextLen _
  refine field_safe (orElse_safe (slice_safe requestContextLen.toNat) _) ?_
  intro requestContext _
  refine field_safe
    (ExtensionGroup.parseVector_safe ExtensionGroup.certificateRequest_safe 6) ?_
  intro _ _
  exact done_safe _

theorem certificateVerify_safe : CertificateVerifyRef.parse.Safe 0 (fun _ => True) := by
  refine field_safe (orElse_safe signatureScheme_safe _) ?_
  intro signatureScheme _
  refine field_safe (orElse_safe (readNumber_safe 2) _) ?_
  intro len _
  refine field_safe (orElse_safe (slice_safe len) _) ?_
  intro signature _
  exact done_safe _

theorem finished_safe (hashLen : Nat) :
    (Finished.parse hashLen).Safe 0 (fun f => f.verify.length = hashLen) := by
  refine field_safe (orFail_safe (fill_safe hashLen)) ?_
  intro verify hverify
  exact Parser.Safe.succeed hverify

theorem encryptedExtensions_safe : EncryptedExtensions.parse.Safe 0 (fun _ => True) := by
  refine field_safe
    (ExtensionGroup.parseVector_safe ExtensionGroup.encryptedExtensions_safe 16) ?_
  intro _ _
  exact done_safe _

theorem newSessionTicket_safe : NewSessionTicket.parse.Safe 0 (fun _ => True) := by
  refine field_safe (orFail_safe (readNumber_safe 4)) ?_
  intro _ _
  refine field_safe (orFail_safe (readNumber_safe 4)) ?_
  intro _ _
  refine field_safe (orFail_safe readU8_safe) ?_
  intro nonceLength _
  refine field_safe (orElse_safe (slice_safe nonceLength.toNat) _) ?_
  intro _ _
  refine field_safe (orFail_safe (readNumber_safe 2)) ?_
  intro ticketLength _
  refine field_safe (orElse_safe (slice_safe ticketLength) _) ?_
  intro _ _
  refine field_safe
    (ExtensionGroup.parseVector_safe ExtensionGroup.newSessionTicket_safe 1) ?_
  intro _ _
  exact done_safe _

namespace ServerHandshake

variable (suite : TlsCipherSuite)

theorem parseBody_safe (handshakeType : HandshakeType) :
    (parseBody suite handshakeType).Safe 0 (fun _ => True) := by
  cases handshakeType with
  | serverHello => exact bound_safe serverHello_safe _
  | newSessionTicket => exact bound_safe newSessionTicket_safe _
  | encryptedExtensions => exact bound_safe encryptedExtensions_safe _
  | certificate => exact bound_safe certificate_safe _
  | certificateRequest => exact bound_safe certificateRequest_safe _
  | certificateVerify => exact bound_safe certificateVerify_safe _
  | finished => exact bound_safe (finished_safe suite.hashLen) _
  | clientHello => exact Parser.Safe.fail _
  | endOfEarlyData => exact Parser.Safe.fail _
  | keyUpdate => exact Parser.Safe.fail _
  | messageHash => exact Parser.Safe.fail _

theorem parse_safe : (parse suite).Safe 4 (fun _ => True) := by
  refine (orElse_safe (parseCode_safe readU8_safe _ _) _).bind (m := 3) ?_
  intro handshakeType _
  refine (orElse_safe (readNumber_safe 3) _).bind (m := 0) ?_
  intro _ _
  exact parseBody_safe suite handshakeType

theorem read_of_failure (transcript : Transcript) {buf buf' : ParseBuffer}
    {e : ProtocolError} (hrun : parse suite buf = .ok (.error e, buf')) :
    read suite transcript buf = .ok (.error e, buf') := by
  unfold read
  rw [hrun]
  rfl

theorem read_of_parse (transcript : Transcript) {buf : ParseBuffer} {k : Nat}
    {handshake : ServerHandshake} (hrun : parse suite buf = .ok (.ok handshake, buf.advance k))
    (hk : buf.pos + k ≤ buf.buffer.length) :
    read suite transcript buf =
      .ok (.ok (withHash suite transcript handshake, transcript ++ buf.rest.take k),
        buf.advance k) := by
  have hslice : Exec.slice (buf.advance k).buffer buf.pos (buf.advance k).pos =
      .ok (buf.rest.take k) := by
    rw [Cursor.advance_buffer, Cursor.advance_pos, slice_of_le (Nat.le_add_right _ _) hk,
      List.drop_take, Nat.add_sub_cancel_left]
    rfl
  unfold read
  rw [hrun, ok_bind]
  simp only [hslice, ok_bind]
  rfl

/-- On any bytes a message is read within the buffer; it is at least four bytes long, and
just its bytes are digested. -/
theorem read_spec (transcript : Transcript) {buf : ParseBuffer} (hbuf : buf.Valid) :
    exists r k, read suite transcript buf = .ok (r, buf.advance k) ∧
      buf.pos + k ≤ buf.buffer.length ∧
      forall handshake transcript', r = .ok (handshake, transcript') ->
        4 ≤ k ∧ transcript' = transcript ++ buf.rest.take k := by
  rcases parse_safe suite buf hbuf with ⟨r, k, hrun, hk, hr⟩
  cases r with
  | error e =>
      exact ⟨.error e, k, read_of_failure suite transcript hrun, hk, fun _ _ h => by cases h⟩
  | ok handshake =>
      refine ⟨_, k, read_of_parse suite transcript hrun hk, hk, ?_⟩
      intro handshake' transcript' h
      cases h
      exact ⟨(hr handshake rfl).1, rfl⟩

end ServerHandshake

theorem alert_safe : Alert.parse.Safe 0 (fun _ => True) := by
  refine field_safe (orFail_safe readU8_safe) ?_
  intro level _
  refine field_safe (orFail_safe readU8_safe) ?_
  intro desc _
  split
  · exact done_safe _
  · exact Parser.Safe.fail _

/-- A record whose header was decoded and whose body is as long as it says is decoded
without a fault; the transcript grows by a part of the body, or stays. -/
theorem ServerRecord.decode_spec (suite : TlsCipherSuite) {header : RecordHeader}
    {data : List UInt8} (hlen : header.contentLength = data.length)
    (htype : ContentType.of (header.header.getD 0 0) ≠ none) (start : Nat)
    (transcript : Transcript) :
    exists r more, decode suite header start data transcript =
      .ok (r, transcript ++ more) ∧ more <+: data := by
  unfold decode
  rw [if_neg (by simp [hlen])]
  cases hof : ContentType.of (header.header.getD 0 0) with
  | none => exact absurd hof htype
  | some contentType =>
      cases contentType with
      | invalid => exact ⟨_, [], by rw [List.append_nil]; rfl, List.nil_prefix⟩
      | changeCipherSpec => exact ⟨_, [], by rw [List.append_nil]; rfl, List.nil_prefix⟩
      | applicationData => exact ⟨_, [], by rw [List.append_nil]; rfl, List.nil_prefix⟩
      | alert =>
          rcases alert_safe (Cursor.start data) (Cursor.start_valid data) with
            ⟨r, k, hrun, _, _⟩
          simp only [parseAll, hrun, ok_bind, pure_eq_ok]
          cases r with
          | ok a => exact ⟨_, [], by rw [List.append_nil], List.nil_prefix⟩
          | error e => exact ⟨_, [], by rw [List.append_nil], List.nil_prefix⟩
      | handshake =>
          rcases ServerHandshake.read_spec suite transcript (Cursor.start_valid data) with
            ⟨r, k, hrun, _, hr⟩
          simp only [parseAll, hrun, ok_bind, pure_eq_ok]
          cases r with
          | error e => exact ⟨_, [], by rw [List.append_nil], List.nil_prefix⟩
          | ok result =>
              rcases hr result.1 result.2 rfl with ⟨_, htranscript⟩
              refine ⟨.ok (.handshake result.1), data.take k, ?_, List.take_prefix _ _⟩
              simp only [htranscript]
              rfl

end Safety
end EmbeddedTls
end TWA
