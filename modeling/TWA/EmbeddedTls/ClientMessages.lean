import TWA.EmbeddedTls.ClientExtensions

/-!
# The messages of the client

The hello is made of the configuration, some random bytes and the public key of a
secret.  The other messages are those that the server sends too, and are read
back by the parser for them.  A record of the client holds one message, or an
alert.
-/

namespace TWA
namespace EmbeddedTls

open Foundation
open Foundation.Exec
open ParseBuffer
open CryptoBuffer (Encodes push extendFromSlice pushU16 withU8Length withU16Length withU24Length)

/-! ## The configuration -/

structure Psk where
  key : List UInt8
  identities : List (List UInt8)
  identities_le : identities.length ≤ 4
  deriving DecidableEq, Repr

structure TlsConfig where
  serverName : Option (List UInt8)
  alpnProtocols : Option (List (List UInt8))
  psk : Option Psk
  signatureSchemes : List SignatureScheme
  namedGroups : List NamedGroup
  maxFragmentLength : Option MaxFragmentLength
  signatureSchemes_le : signatureSchemes.length ≤ 25
  namedGroups_le : namedGroups.length ≤ 13
  deriving DecidableEq, Repr

namespace TlsConfig

def pushScheme (scheme : SignatureScheme) (c : TlsConfig) : Exec TlsConfig :=
  if h : c.signatureSchemes.length < 25 then
    .ok { c with
      signatureSchemes := c.signatureSchemes ++ [scheme]
      signatureSchemes_le := by
        rw [List.length_append, List.length_singleton]
        exact h }
  else
    .error .unwrapNone

def new : Exec TlsConfig := do
  let config : TlsConfig :=
    { serverName := none
      alpnProtocols := none
      psk := none
      signatureSchemes := []
      namedGroups := [.secp256r1]
      maxFragmentLength := none
      signatureSchemes_le := by decide
      namedGroups_le := by decide }
  let config <- pushScheme .ecdsaSecp256r1Sha256 config
  let config <- pushScheme .ecdsaSecp384r1Sha384 config
  pushScheme .ed25519 config

def enableRsaSignatures (c : TlsConfig) : Exec TlsConfig := do
  let c <- pushScheme .rsaPkcs1Sha256 c
  let c <- pushScheme .rsaPkcs1Sha384 c
  let c <- pushScheme .rsaPkcs1Sha512 c
  let c <- pushScheme .rsaPssRsaeSha256 c
  let c <- pushScheme .rsaPssRsaeSha384 c
  pushScheme .rsaPssRsaeSha512 c

def app : TlsConfig where
  serverName := none
  alpnProtocols := none
  psk := none
  signatureSchemes :=
    [.ecdsaSecp256r1Sha256, .ecdsaSecp384r1Sha384, .ed25519, .rsaPkcs1Sha256, .rsaPkcs1Sha384,
      .rsaPkcs1Sha512, .rsaPssRsaeSha256, .rsaPssRsaeSha384, .rsaPssRsaeSha512]
  namedGroups := [.secp256r1]
  maxFragmentLength := none
  signatureSchemes_le := by decide
  namedGroups_le := by decide

theorem new_enableRsaSignatures : (new >>= enableRsaSignatures) = .ok app := rfl

end TlsConfig

/-- The key exchange: the public key of a secret, and what a secret and the share of the
other side have in common, if the share is a public key. -/
structure KeyExchange where
  publicKey : (secret : List UInt8) -> List UInt8
  diffieHellman : (secret share : List UInt8) -> Option (List UInt8)
  length_publicKey : forall secret, (publicKey secret).length = 65

def ServerHello.calculateSharedSecret (kx : KeyExchange) (secret : List UInt8)
    (hello : ServerHello) : Option (List UInt8) := do
  let serverKeyShare <- hello.keyShare
  kx.diffieHellman secret serverKeyShare.opaqueBytes

/-! ## Messages -/

structure ClientHello where
  config : TlsConfig
  random : List UInt8
  secret : List UInt8
  deriving DecidableEq, Repr

def legacyVersion : Nat := 0x0303

def tls13 : Nat := 0x0304

def PskBinder.encode (verify : List UInt8) : Encode Unit := do
  orEncodeError (push (UInt8.ofNat verify.length))
  orEncodeError (extendFromSlice verify)

namespace ClientHello

section Hello

variable (suite : TlsCipherSuite) (kx : KeyExchange)

/-- The extensions in the order in which they are encoded; that of pre-shared keys is the
last one. -/
def extensions (hello : ClientHello) : List ClientHelloExtension :=
  [(.supportedVersions, .supportedVersions [tls13]),
    (.signatureAlgorithms, .signatureAlgorithms hello.config.signatureSchemes)] ++
  (hello.config.maxFragmentLength.map (fun length =>
    (.maxFragmentLength, .maxFragmentLength length))).toList ++
  [(.supportedGroups, .supportedGroups hello.config.namedGroups),
    (.pskKeyExchangeModes, .pskKeyExchangeModes [.pskDheKe]),
    (.keyShare, .keyShare [
      { group := .secp256r1, opaqueBytes := kx.publicKey hello.secret }])] ++
  (hello.config.serverName.map (fun name =>
    (.serverName, .serverName [{ nameType := .hostName, name := name }]))).toList ++
  (hello.config.alpnProtocols.map (fun protocols =>
    (.applicationLayerProtocolNegotiation,
      .applicationLayerProtocolNegotiation protocols))).toList ++
  (hello.config.psk.map (fun psk =>
    (.preSharedKey, .preSharedKey psk.identities suite.hashLen))).toList

def encode (hello : ClientHello) : Encode Unit := do
  orEncodeError (pushU16 legacyVersion)
  orEncodeError (extendFromSlice hello.random)
  orEncodeError (push 0)
  orEncodeError (pushU16 2)
  orEncodeError (pushU16 suite.codePoint)
  orEncodeError (push 1)
  orEncodeError (push 0)
  withU16Length (Emitter.each ClientHelloExtension.encode (hello.extensions suite kx))

/-- One binder for each identity, all of them over the same messages. -/
def encodeBinders (keys : WriteKeySchedule) (transcript : Transcript)
    (identities : List (List UInt8)) : Encode Unit :=
  Emitter.each (fun _ => do
    let binder <- Emitter.ofExcept (keys.createPskBinder suite transcript)
    PskBinder.encode binder) identities

/-- The binders are computed over the hello in front of them, and put into their places;
then the rest of the hello is digested. -/
def finalize (encBuf : List UInt8) (transcript : Transcript) (keys : WriteKeySchedule)
    (hello : ClientHello) : Exec (Except ProtocolError Unit × List UInt8 × Transcript) :=
  match hello.config.psk with
  | none => pure (.ok (), encBuf, transcript ++ encBuf)
  | some psk => do
      let bindersPos <- sub encBuf.length (psk.identities.length * (1 + suite.hashLen))
      let lengthPos <- sub bindersPos 2
      let front <- slice encBuf 0 lengthPos
      let transcript := transcript ++ front
      let places <- slice encBuf bindersPos encBuf.length
      let (r, buf) <- encodeBinders suite keys transcript psk.identities
        (CryptoBuffer.wrap places)
      let encBuf := splice encBuf bindersPos buf.buf
      match r with
      | .error e => pure (.error e, encBuf, transcript)
      | .ok _ => do
          let rest <- slice encBuf lengthPos encBuf.length
          pure (.ok (), encBuf, transcript ++ rest)

end Hello
end ClientHello

namespace CertificateEntryRef

/-- The encoding of a raw public key has not been written. -/
def encode : CertificateEntryRef -> Encode Unit
  | x509 cert => do
      withU24Length (extendFromSlice cert)
      pushU16 0
  | rawPublicKey _ => fun _ => panicked

end CertificateEntryRef

namespace CertificateRef

def withContext (requestContext : List UInt8) : CertificateRef :=
  { rawEntries := [], requestContext := requestContext, entries := [] }

def add (entry : CertificateEntryRef) (cert : CertificateRef) :
    Except ProtocolError CertificateRef :=
  if cert.entries.length < 16 then .ok { cert with entries := cert.entries ++ [entry] }
  else .error .insufficientSpace

def encode (cert : CertificateRef) : Encode Unit := do
  withU8Length (extendFromSlice cert.requestContext)
  withU24Length (Emitter.each CertificateEntryRef.encode cert.entries)

end CertificateRef

def signatureSize : Nat := 104

structure CertificateVerify where
  signatureScheme : SignatureScheme
  signature : List UInt8
  signature_le : signature.length ≤ signatureSize
  deriving DecidableEq, Repr

def CertificateVerify.encode (verify : CertificateVerify) : Encode Unit := do
  pushU16 verify.signatureScheme.asU16
  withU16Length (extendFromSlice verify.signature)

def Finished.encode (f : Finished) : Encode Unit :=
  orEncodeError (extendFromSlice f.verify)

inductive ClientHandshake where
  | clientCert (cert : CertificateRef)
  | clientCertVerify (verify : CertificateVerify)
  | clientHello (hello : ClientHello)
  | finished (f : Finished)
  deriving DecidableEq, Repr

namespace ClientHandshake

section Handshake

variable (suite : TlsCipherSuite) (kx : KeyExchange)

def handshakeType : ClientHandshake -> HandshakeType
  | clientHello _ => .clientHello
  | finished _ => .finished
  | clientCert _ => .certificate
  | clientCertVerify _ => .certificateVerify

def encodeInner : ClientHandshake -> Encode Unit
  | clientHello hello => hello.encode suite kx
  | finished f => f.encode
  | clientCert cert => cert.encode
  | clientCertVerify verify => verify.encode

def encode (handshake : ClientHandshake) : Encode Unit := do
  orEncodeError (push handshake.handshakeType.toByte)
  withU24Length (handshake.encodeInner suite kx)

def finalize (encBuf : List UInt8) (transcript : Transcript) (keys : WriteKeySchedule) :
    ClientHandshake -> Exec (Except ProtocolError Unit × List UInt8 × Transcript)
  | clientHello hello => hello.finalize suite encBuf transcript keys
  | _ => pure (.ok (), encBuf, transcript ++ encBuf)

end Handshake
end ClientHandshake

def Alert.encode (a : Alert) : Encode Unit := do
  orEncodeError (push a.level.toByte)
  orEncodeError (push a.description.toByte)

/-! ## Records -/

inductive ClientRecord where
  | handshake (h : ClientHandshake) (encrypted : Bool)
  | alert (a : Alert) (encrypted : Bool)
  deriving DecidableEq, Repr

namespace ClientRecord

def header : ClientRecord -> ClientRecordHeader
  | handshake _ encrypted => .handshake encrypted
  | alert _ encrypted => .alert encrypted

def closeNotify (opened : Bool) : ClientRecord :=
  alert { level := .warning, description := .closeNotify } opened

def encodePayload (suite : TlsCipherSuite) (kx : KeyExchange) : ClientRecord -> Encode Unit
  | handshake h _ => h.encode suite kx
  | alert a _ => a.encode

/-- A message is digested as it stands in the buffer, before it is sealed. -/
def finishRecord (suite : TlsCipherSuite) (encBuf : List UInt8) (transcript : Transcript)
    (keys : WriteKeySchedule) :
    ClientRecord -> Exec (Except ProtocolError Unit × List UInt8 × Transcript)
  | handshake h false => h.finalize suite encBuf transcript keys
  | handshake _ true => pure (.ok (), encBuf, transcript ++ encBuf)
  | alert _ _ => pure (.ok (), encBuf, transcript)

end ClientRecord

/-! ## The bytes -/

section Bytes

variable (suite : TlsCipherSuite) (kx : KeyExchange)

def ClientHello.front (hello : ClientHello) : List UInt8 :=
  numberBytes 2 legacyVersion ++ (hello.random ++ ([0] ++ (numberBytes 2 2 ++
    (numberBytes 2 suite.codePoint ++ ([1] ++ [0])))))

def ClientHello.bytes (hello : ClientHello) : List UInt8 :=
  hello.front suite ++ vector 2 ((hello.extensions suite kx).flatMap ClientHelloExtension.bytes)

def CertificateEntryRef.bytes : CertificateEntryRef -> List UInt8
  | x509 cert => vector 3 cert ++ numberBytes 2 0
  | rawPublicKey _ => []

def CertificateEntryRef.IsX509 (entry : CertificateEntryRef) : Prop :=
  exists cert, entry = x509 cert

def CertificateRef.bytes (cert : CertificateRef) : List UInt8 :=
  vector 1 cert.requestContext ++ vector 3 (cert.entries.flatMap CertificateEntryRef.bytes)

def CertificateVerify.bytes (verify : CertificateVerify) : List UInt8 :=
  numberBytes 2 verify.signatureScheme.asU16 ++ vector 2 verify.signature

namespace ClientHandshake

def body : ClientHandshake -> List UInt8
  | clientHello hello => hello.bytes suite kx
  | finished f => f.verify
  | clientCert cert => cert.bytes
  | clientCertVerify verify => verify.bytes

def bytes (handshake : ClientHandshake) : List UInt8 :=
  handshake.handshakeType.toByte :: vector 3 (handshake.body suite kx)

def Encodable : ClientHandshake -> Prop
  | clientCert cert => forall entry, entry ∈ cert.entries -> entry.IsX509
  | _ => True

end ClientHandshake

def Alert.bytes (a : Alert) : List UInt8 :=
  [a.level.toByte, a.description.toByte]

def ClientRecord.payload : ClientRecord -> List UInt8
  | handshake h _ => h.bytes suite kx
  | alert a _ => a.bytes

def ClientRecord.Encodable : ClientRecord -> Prop
  | handshake h _ => h.Encodable
  | alert _ _ => True

end Bytes

section Encoding

open CryptoBuffer

variable (suite : TlsCipherSuite) (kx : KeyExchange)

theorem clientHello_encodes (hello : ClientHello) :
    Encodes (hello.encode suite kx) (hello.bytes suite kx) := by
  have hextensions : Encodes
      (withU16Length (Emitter.each ClientHelloExtension.encode (hello.extensions suite kx)))
      (vector 2 ((hello.extensions suite kx).flatMap ClientHelloExtension.bytes)) :=
    list16_encodes extension_encodes _
  have hbytes : hello.bytes suite kx = numberBytes 2 legacyVersion ++ (hello.random ++ ([0] ++
      (numberBytes 2 2 ++ (numberBytes 2 suite.codePoint ++ ([1] ++ ([0] ++
        vector 2 ((hello.extensions suite kx).flatMap ClientHelloExtension.bytes))))))) := by
    simp only [ClientHello.bytes, ClientHello.front, List.append_assoc]
  rw [hbytes]
  refine Emitter.Appends.seq (number_encodes _) ?_
  refine Emitter.Appends.seq (orEncodeError_encodes (extendFromSlice_encodes _)) ?_
  refine Emitter.Appends.seq (byte_encodes 0) ?_
  refine Emitter.Appends.seq (number_encodes _) ?_
  refine Emitter.Appends.seq (number_encodes _) ?_
  refine Emitter.Appends.seq (byte_encodes 1) ?_
  exact Emitter.Appends.seq (byte_encodes 0) hextensions

theorem certificateEntry_encodes {entry : CertificateEntryRef} (h : entry.IsX509) :
    Encodes entry.encode entry.bytes := by
  rcases h with ⟨cert, rfl⟩
  exact (withU24Length_encodes (extendFromSlice_encodes cert)).seq (extendFromSlice_encodes _)

theorem certificate_encodes {cert : CertificateRef}
    (h : forall entry, entry ∈ cert.entries -> entry.IsX509) :
    Encodes cert.encode cert.bytes := by
  refine Emitter.Appends.seq (withU8Length_encodes (extendFromSlice_encodes _)) ?_
  exact withU24Length_encodes (Emitter.Appends.each (fun entry hentry =>
    certificateEntry_encodes (h entry hentry)))

theorem certificateVerify_encodes (verify : CertificateVerify) :
    Encodes verify.encode verify.bytes :=
  (extendFromSlice_encodes _).seq (withU16Length_encodes (extendFromSlice_encodes _))

theorem encodeInner_encodes {handshake : ClientHandshake} (h : handshake.Encodable) :
    Encodes (handshake.encodeInner suite kx) (handshake.body suite kx) := by
  cases handshake with
  | clientHello hello => exact clientHello_encodes suite kx hello
  | finished f => exact orEncodeError_encodes (extendFromSlice_encodes _)
  | clientCert cert => exact certificate_encodes h
  | clientCertVerify verify => exact certificateVerify_encodes verify

theorem clientHandshake_encodes {handshake : ClientHandshake} (h : handshake.Encodable) :
    Encodes (handshake.encode suite kx) (handshake.bytes suite kx) :=
  (byte_encodes _).seq (withU24Length_encodes (encodeInner_encodes suite kx h))

theorem payload_encodes {record : ClientRecord} (h : record.Encodable) :
    Encodes (record.encodePayload suite kx) (record.payload suite kx) := by
  cases record with
  | handshake handshake encrypted => exact clientHandshake_encodes suite kx h
  | alert a encrypted => exact (byte_encodes a.level.toByte).seq (byte_encodes _)

end Encoding

/-! ## The messages are read back -/

section Reading

theorem field16_reads {alpha : Type} {bytes : List UInt8} (h : bytes.length < 256 ^ 2)
    (e : ProtocolError) {f : ParseBuffer -> Decode alpha} {a : alpha} {tok : List UInt8}
    (hf : (f (Cursor.start bytes)).Reads tok a) :
    (orElse e readU16 >>= fun len => orElse e (slice len) >>= f).Reads
      (vector 2 bytes ++ tok) a := by
  unfold vector
  rw [List.append_assoc]
  exact ((number_reads h).mapError _).bind (f := fun len => orElse e (slice len) >>= f)
    (((slice_reads bytes).mapError _).bind hf)

theorem field24_reads {alpha : Type} {bytes : List UInt8} (h : bytes.length < 256 ^ 3)
    (e : ProtocolError) {f : ParseBuffer -> Decode alpha} {a : alpha} {tok : List UInt8}
    (hf : (f (Cursor.start bytes)).Reads tok a) :
    (orElse e readU24 >>= fun len => orElse e (slice len) >>= f).Reads
      (vector 3 bytes ++ tok) a := by
  unfold vector
  rw [List.append_assoc]
  exact ((number_reads h).mapError _).bind (f := fun len => orElse e (slice len) >>= f)
    (((slice_reads bytes).mapError _).bind hf)

theorem field8_reads {alpha : Type} {bytes : List UInt8} (h : bytes.length < 256)
    (e : ProtocolError) {f : ParseBuffer -> Decode alpha} {a : alpha} {tok : List UInt8}
    (hf : (f (Cursor.start bytes)).Reads tok a) :
    (orElse e readU8 >>= fun len => orElse e (slice len.toNat) >>= f).Reads
      (vector 1 bytes ++ tok) a := by
  have hnat : (UInt8.ofNat bytes.length).toNat = bytes.length := by
    rw [UInt8.toNat_ofNat']
    exact Nat.mod_eq_of_lt h
  have hslice := (slice_reads bytes).mapError (fun _ => e)
  rw [← hnat] at hslice
  unfold vector
  rw [List.append_assoc]
  exact ((readU8_reads _).mapError _).bind (f := fun len : UInt8 =>
    orElse e (slice len.toNat) >>= f) (hslice.bind hf)

theorem certificateEntry_reads {cert : List UInt8} (h : cert.length < 256 ^ 3) :
    CertificateEntryRef.parse.Reads (CertificateEntryRef.x509 cert).bytes (.x509 cert) := by
  have hnone := (ExtensionGroup.parseVector_nil_reads 2 ExtensionGroup.certificate).bind
    (f := fun _ => (pure (.x509 cert) : Decode CertificateEntryRef)) Parser.Reads.succeed
  rw [List.append_nil] at hnone
  exact field24_reads h .invalidCertificateEntry hnone

def CertificateRef.readBack (cert : CertificateRef) : CertificateRef :=
  { cert with rawEntries := cert.entries.flatMap CertificateEntryRef.bytes }

/-- The lists of the message fit into the vectors of the parser. -/
structure CertificateRef.Fits (cert : CertificateRef) : Prop where
  context : cert.requestContext.length < 256
  room : cert.entries.length ≤ 16
  x509 : forall entry, entry ∈ cert.entries -> entry.IsX509
  entries : (cert.entries.flatMap CertificateEntryRef.bytes).length < 256 ^ 3

theorem certificate_reads {cert : CertificateRef} (h : cert.Fits) :
    CertificateRef.parse.Reads cert.bytes cert.readBack := by
  have hitems : (readItems 16 ProtocolError.decodeError CertificateEntryRef.parse).ReadsAll
      (cert.entries.flatMap CertificateEntryRef.bytes) cert.entries := by
    refine readItems_reads ?_ h.room
    intro entry hentry
    rcases h.x509 entry hentry with ⟨bytes, rfl⟩
    have hle := length_le_flatMap CertificateEntryRef.bytes hentry
    have hlen := h.entries
    refine ⟨by simp [CertificateEntryRef.bytes, vector, numberBytes],
      certificateEntry_reads ?_⟩
    rw [CertificateEntryRef.bytes, List.length_append, length_vector] at hle
    omega
  let parseEntries : ParseBuffer -> Decode CertificateRef := fun rawEntries => do
    let parsed <- Parser.within rawEntries
      (readItems 16 ProtocolError.decodeError CertificateEntryRef.parse)
    pure
      { rawEntries := rawEntries.buffer
        requestContext := cert.requestContext
        entries := parsed.1 }
  have hlast : (parseEntries
      (Cursor.start (cert.entries.flatMap CertificateEntryRef.bytes))).Reads []
        cert.readBack :=
    (Parser.Reads.within (Cursor.start_valid _) hitems).bind Parser.Reads.succeed
  have hentries := field24_reads h.entries .invalidCertificate hlast
  rw [List.append_nil] at hentries
  exact field8_reads h.context .invalidCertificate hentries

theorem certificateVerify_reads (verify : CertificateVerify) :
    CertificateVerifyRef.parse.Reads verify.bytes
      { signatureScheme := verify.signatureScheme, signature := verify.signature } := by
  have hlen : verify.signature.length < 256 ^ 2 := by
    have hle := verify.signature_le
    unfold signatureSize at hle
    omega
  have hsignature : (do
      let len <- orElse .invalidSignature readU16
      let signature <- orElse .invalidSignature (slice len)
      pure { signatureScheme := verify.signatureScheme, signature := signature.buffer } :
        Decode CertificateVerifyRef).Reads (vector 2 verify.signature ++ [])
          { signatureScheme := verify.signatureScheme, signature := verify.signature } :=
    field16_reads hlen .invalidSignature Parser.Reads.succeed
  rw [List.append_nil] at hsignature
  exact ((scheme_reads verify.signatureScheme).mapError _).bind hsignature

theorem finished_reads {hashLen : Nat} {f : Finished} (h : f.verify.length = hashLen) :
    (Finished.parse hashLen).Reads f.verify { f with hash := none } := by
  have hfill := ((fill_reads f.verify).mapError ProtocolError.parse).bind
    (f := fun verify => (pure { verify := verify, hash := none } : Decode Finished))
    Parser.Reads.succeed
  rw [List.append_nil, h] at hfill
  exact hfill

end Reading

section RoundTrip

variable {suite : TlsCipherSuite} {kx : KeyExchange}

/-- The hello has an extension block that its own parser understands; the parser of
pre-shared keys has not been written. -/
structure ClientHello.Fits (suite : TlsCipherSuite) (kx : KeyExchange) (hello : ClientHello) :
    Prop where
  psk : hello.config.psk = none
  serverName : forall name, hello.config.serverName = some name ->
    ServerName.isAscii name = true
  protocols : forall protocols, hello.config.alpnProtocols = some protocols ->
    forall p, p ∈ protocols -> p ≠ [] ∧ p.length < 256
  short : ((hello.extensions suite kx).flatMap ClientHelloExtension.bytes).length < 256 ^ 2

theorem ClientHello.Fits.allowed {hello : ClientHello} (h : hello.Fits suite kx)
    {extension : ClientHelloExtension} (hmem : extension ∈ hello.extensions suite kx) :
    ClientHelloExtension.Allowed extension := by
  simp only [ClientHello.extensions, h.psk, Option.map_none, Option.toList_none,
    List.append_nil, List.mem_append, List.mem_cons, List.not_mem_nil, or_false,
    Option.mem_toList, Option.map_eq_some_iff] at hmem
  rcases hmem with (((hfirst | hlength) | hmiddle) | hname) | hprotocols
  · rcases hfirst with rfl | rfl
    · exact .supportedVersions (by decide) (by decide)
    · exact .signatureAlgorithms hello.config.signatureSchemes_le
  · rcases hlength with ⟨l, _, rfl⟩
    exact .maxFragmentLength l
  · rcases hmiddle with rfl | rfl | rfl
    · exact .supportedGroups hello.config.namedGroups_le
    · exact .pskKeyExchangeModes (by decide)
    · exact .keyShare (Nat.le_refl 1)
  · rcases hname with ⟨name, hsome, rfl⟩
    refine .serverName (by simp) ?_
    intro s hs
    rw [List.mem_singleton.mp hs]
    exact h.serverName name hsome
  · rcases hprotocols with ⟨protocols, hsome, rfl⟩
    exact .applicationLayerProtocolNegotiation (h.protocols protocols hsome)

theorem ClientHello.length_extensions_le {hello : ClientHello} (h : hello.config.psk = none) :
    (hello.extensions suite kx).length ≤ 8 := by
  have hle {alpha : Type} (o : Option alpha) : o.toList.length ≤ 1 := by
    cases o with
    | none => exact Nat.zero_le 1
    | some a => exact Nat.le_refl 1
  have hlength := hle (hello.config.maxFragmentLength.map (fun length =>
    ((.maxFragmentLength, .maxFragmentLength length) : ClientHelloExtension)))
  have hname := hle (hello.config.serverName.map (fun name =>
    ((.serverName, .serverName [{ nameType := .hostName, name := name }]) :
      ClientHelloExtension)))
  have hprotocols := hle (hello.config.alpnProtocols.map (fun protocols =>
    ((.applicationLayerProtocolNegotiation,
      .applicationLayerProtocolNegotiation protocols) : ClientHelloExtension)))
  simp only [ClientHello.extensions, h, Option.map_none, Option.toList_none, List.append_nil,
    List.length_append, List.length_cons, List.length_nil]
  omega

theorem extensionBlock_reads {hello : ClientHello} (h : hello.Fits suite kx) :
    (ExtensionGroup.parseVector 8 ClientHelloExtension.group).Reads
      (vector 2 ((hello.extensions suite kx).flatMap ClientHelloExtension.bytes))
      ((hello.extensions suite kx).map (fun extension =>
        (extension.1, ClientHelloExtension.readBack extension.2))) := by
  refine ExtensionGroup.parseVector_reads ?_ (ClientHello.length_extensions_le h.psk) h.short
  intro extension hmem
  refine ⟨by simp [ClientHelloExtension.bytes, numberBytes], ?_⟩
  refine ClientHelloExtension.parse_reads (h.allowed hmem) ?_
  have hle := length_le_flatMap ClientHelloExtension.bytes hmem
  have hshort := h.short
  rw [ClientHelloExtension.bytes, List.length_append, length_vector] at hle
  omega

namespace ClientHandshake

def Fits (suite : TlsCipherSuite) (kx : KeyExchange) : ClientHandshake -> Prop
  | clientCert cert => cert.Fits
  | clientCertVerify _ => True
  | clientHello hello => hello.Fits suite kx
  | finished f => f.verify.length = suite.hashLen

/-- What the parsers make of the bytes of a message, whatever follows them.  Of a hello
there are parsers for the extensions only. -/
def ReadsBack (suite : TlsCipherSuite) (kx : KeyExchange) (bytes : List UInt8) :
    ClientHandshake -> Prop
  | clientCert cert => (ServerHandshake.parse suite).Reads bytes (.certificate cert.readBack)
  | clientCertVerify verify =>
      (ServerHandshake.parse suite).Reads bytes (.certificateVerify
        { signatureScheme := verify.signatureScheme, signature := verify.signature })
  | finished f => (ServerHandshake.parse suite).Reads bytes (.finished { f with hash := none })
  | clientHello hello =>
      exists header block, bytes = header ++ hello.front suite ++ block ∧ header.length = 4 ∧
        (ExtensionGroup.parseVector 8 ClientHelloExtension.group).Reads block
          ((hello.extensions suite kx).map (fun extension =>
            (extension.1, ClientHelloExtension.readBack extension.2)))

theorem Fits.encodable {handshake : ClientHandshake} (h : handshake.Fits suite kx) :
    handshake.Encodable := by
  cases handshake with
  | clientCert cert => exact h.x509
  | clientCertVerify verify => exact True.intro
  | clientHello hello => exact True.intro
  | finished f => exact True.intro

theorem reads {handshake : ClientHandshake} (h : handshake.Fits suite kx) :
    handshake.ReadsBack suite kx (handshake.bytes suite kx) := by
  cases handshake with
  | clientCert cert =>
      exact ServerHandshake.parse_reads (length_numberBytes 3 _)
        ((certificate_reads h).map _)
  | clientCertVerify verify =>
      exact ServerHandshake.parse_reads (length_numberBytes 3 _)
        ((certificateVerify_reads verify).map _)
  | finished f =>
      exact ServerHandshake.parse_reads (length_numberBytes 3 _)
        ((finished_reads h).map _)
  | clientHello hello =>
      refine ⟨HandshakeType.clientHello.toByte :: numberBytes 3 (hello.bytes suite kx).length,
        _, ?_, ?_, extensionBlock_reads h⟩
      · unfold bytes body vector ClientHello.bytes
        simp only [List.cons_append, List.append_assoc]
        rfl
      · rw [List.length_cons, length_numberBytes]

/-- A message is encoded just where it has room, and its bytes are read back as the
message. -/
theorem encode_reads_back {handshake : ClientHandshake} (h : handshake.Fits suite kx)
    {b : CryptoBuffer} (hb : b.Valid) :
    (b.HasRoom (handshake.bytes suite kx).length ->
      exists b', handshake.encode suite kx b = .ok (.ok (), b') ∧
        b'.content = b.content ++ handshake.bytes suite kx) ∧
    (¬ b.HasRoom (handshake.bytes suite kx).length ->
      exists e b', handshake.encode suite kx b = .ok (.error e, b') ∧
        CryptoBuffer.NoRoom e) ∧
    handshake.ReadsBack suite kx (handshake.bytes suite kx) := by
  have hencodes := clientHandshake_encodes suite kx h.encodable
  refine ⟨?_, ?_, reads h⟩
  · intro hroom
    exact ⟨_, hencodes.written b hroom, Region.content_append hroom⟩
  · intro hroom
    rcases hencodes.refused b hb hroom with ⟨e, b', hrun, he, _⟩
    exact ⟨e, b', hrun, he⟩

end ClientHandshake

def plainExchange : KeyExchange where
  publicKey := fun secret => Transparent.fitted 65 secret
  diffieHellman := fun secret share =>
    if share.length = 65 then
      some (List.zipWith (fun a b => a + b) (Transparent.fitted 65 secret) share)
    else
      none
  length_publicKey := fun secret => Transparent.length_fitted 65 secret

def ClientHello.sample : ClientHello where
  config := TlsConfig.app
  random := List.replicate 32 7
  secret := [3]

set_option maxRecDepth 4000 in
theorem ClientHandshake.encode_reads_back_sample :
    exists b', (clientHello .sample).encode transparent plainExchange
        (CryptoBuffer.wrap (List.replicate 200 0)) = .ok (.ok (), b') ∧
      b'.content = (clientHello .sample).bytes transparent plainExchange := by
  have hfits : (clientHello .sample).Fits transparent plainExchange :=
    ⟨rfl, nofun, nofun, by decide⟩
  have hroom : (CryptoBuffer.wrap (List.replicate 200 0)).HasRoom
      ((clientHello .sample).bytes transparent plainExchange).length := by
    unfold Region.HasRoom
    decide
  exact (encode_reads_back hfits hroom.valid).1 hroom

end RoundTrip
end EmbeddedTls
end TWA
