import TWA.EmbeddedTls.CryptoBuffer
import TWA.EmbeddedTls.ServerHandshake

/-!
# The extensions of the client hello

Each of them can be encoded, and has a parser of its own.  What is encoded is the
type, then the data behind its length; for every extension the bytes are said
without the buffer, and they are read back as what was encoded.
-/

namespace TWA
namespace EmbeddedTls

open Foundation
open Foundation.Exec
open ParseBuffer
open CryptoBuffer (Encodes push extendFromSlice pushU16 pushU32 withU8Length withU16Length)

def ExtensionType.encode (t : ExtensionType) : Encode Unit :=
  orEncodeError (pushU16 t.asU16)

def NamedGroup.encode (g : NamedGroup) : Encode Unit :=
  orEncodeError (pushU16 g.asU16)

def MaxFragmentLength.encode (l : MaxFragmentLength) : Encode Unit :=
  orEncodeError (push l.toByte)

inductive PskKeyExchangeMode where
  | pskKe
  | pskDheKe
  deriving DecidableEq, Repr

namespace PskKeyExchangeMode

def toByte : PskKeyExchangeMode -> UInt8
  | pskKe => 0
  | pskDheKe => 1

def all : List PskKeyExchangeMode := [pskKe, pskDheKe]

def parse : Parse PskKeyExchangeMode :=
  parseCode readU8 all toByte

def encode (mode : PskKeyExchangeMode) : Encode Unit :=
  orEncodeError (push mode.toByte)

end PskKeyExchangeMode

inductive NameType where
  | hostName
  deriving DecidableEq, Repr

namespace NameType

def toByte : NameType -> UInt8
  | hostName => 0

def all : List NameType := [hostName]

def parse : Parse NameType :=
  parseCode readU8 all toByte

def encode (nameType : NameType) : Encode Unit :=
  orEncodeError (push nameType.toByte)

end NameType

structure ServerName where
  nameType : NameType
  name : List UInt8
  deriving DecidableEq, Repr

namespace ServerName

def isAscii (name : List UInt8) : Bool :=
  name.all (fun b => b < 128)

def parse : Parse ServerName := do
  let nameType <- NameType.parse
  let nameLen <- readU16
  let name <- slice nameLen
  if isAscii name.buffer then
    pure { nameType := nameType, name := name.buffer }
  else
    Parser.fail .invalidData

def encode (s : ServerName) : Encode Unit := do
  s.nameType.encode
  orEncodeError (withU16Length (extendFromSlice s.name))

end ServerName

def ServerNameList.parse : Parse (List ServerName) := do
  let dataLength <- readU16
  readList 1 dataLength ServerName.parse

def ServerNameList.encode (names : List ServerName) : Encode Unit :=
  withU16Length (Emitter.each ServerName.encode names)

def SupportedVersionsClientHello.parse : Parse (List Nat) := do
  let dataLength <- readU8
  readList 1 dataLength.toNat readU16

def SupportedVersionsClientHello.encode (versions : List Nat) : Encode Unit :=
  withU8Length (Emitter.each (fun v => orEncodeError (pushU16 v)) versions)

def SignatureAlgorithms.encode (schemes : List SignatureScheme) : Encode Unit :=
  withU16Length (Emitter.each (fun a => orEncodeError (pushU16 a.asU16)) schemes)

def SupportedGroups.encode (groups : List NamedGroup) : Encode Unit :=
  withU16Length (Emitter.each NamedGroup.encode groups)

def KeyShareEntry.encode (entry : KeyShareEntry) : Encode Unit := do
  entry.group.encode
  orEncodeError (withU16Length (extendFromSlice entry.opaqueBytes))

def KeyShareClientHello.parse : Parse (List KeyShareEntry) := do
  let len <- readU16
  readList 1 len KeyShareEntry.parse

def KeyShareClientHello.encode (shares : List KeyShareEntry) : Encode Unit :=
  withU16Length (Emitter.each KeyShareEntry.encode shares)

def PskKeyExchangeModes.parse : Parse (List PskKeyExchangeMode) := do
  let dataLength <- readU8
  readList 4 dataLength.toNat PskKeyExchangeMode.parse

def PskKeyExchangeModes.encode (modes : List PskKeyExchangeMode) : Encode Unit :=
  withU8Length (Emitter.each PskKeyExchangeMode.encode modes)

namespace PreSharedKeyClientHello

def bindersLen (identities : List (List UInt8)) (hashSize : Nat) : Nat :=
  (1 + hashSize) * identities.length

/-- The ticket age is zero, and so are the binders, whose places are kept. -/
def encode (identities : List (List UInt8)) (hashSize : Nat) : Encode Unit := do
  orEncodeError (withU16Length (Emitter.each (fun identity => do
    orEncodeError (withU16Length (extendFromSlice identity))
    orEncodeError (pushU32 0)) identities))
  orEncodeError (pushU16 (bindersLen identities hashSize))
  Emitter.each (fun _ => orEncodeError (push 0)) (List.range (bindersLen identities hashSize))

/-- This parser has not been written. -/
def parse {alpha : Type} : Parse alpha :=
  fun _ => panicked

end PreSharedKeyClientHello

def AlpnProtocolNameList.encode (protocols : List (List UInt8)) : Encode Unit :=
  withU16Length (Emitter.each (fun protocol => do
    orEncodeError (push (UInt8.ofNat protocol.length))
    extendFromSlice protocol) protocols)

def Unimplemented.encode (data : List UInt8) : Encode Unit :=
  extendFromSlice data

inductive ClientHelloData where
  | serverName (names : List ServerName)
  | supportedVersions (versions : List Nat)
  | signatureAlgorithms (schemes : List SignatureScheme)
  | supportedGroups (groups : List NamedGroup)
  | keyShare (shares : List KeyShareEntry)
  | preSharedKey (identities : List (List UInt8)) (hashSize : Nat)
  | pskKeyExchangeModes (modes : List PskKeyExchangeMode)
  | signatureAlgorithmsCert (schemes : List SignatureScheme)
  | maxFragmentLength (length : MaxFragmentLength)
  | applicationLayerProtocolNegotiation (protocols : List (List UInt8))
  | unimplemented (data : List UInt8)
  deriving DecidableEq, Repr

namespace ClientHelloData

def encode : ClientHelloData -> Encode Unit
  | serverName names => ServerNameList.encode names
  | supportedVersions versions => SupportedVersionsClientHello.encode versions
  | signatureAlgorithms schemes => SignatureAlgorithms.encode schemes
  | supportedGroups groups => SupportedGroups.encode groups
  | keyShare shares => KeyShareClientHello.encode shares
  | preSharedKey identities hashSize => PreSharedKeyClientHello.encode identities hashSize
  | pskKeyExchangeModes modes => PskKeyExchangeModes.encode modes
  | signatureAlgorithmsCert schemes => SignatureAlgorithms.encode schemes
  | maxFragmentLength length => length.encode
  | applicationLayerProtocolNegotiation protocols => AlpnProtocolNameList.encode protocols
  | unimplemented data => Unimplemented.encode data

end ClientHelloData

abbrev ClientHelloExtension : Type := ExtensionType × ClientHelloData

namespace ClientHelloExtension

def encode (extension : ClientHelloExtension) : Encode Unit := do
  extension.1.encode
  withU16Length extension.2.encode

def unimplemented : Parse ClientHelloData :=
  ClientHelloData.unimplemented <$> Unimplemented.parse

def group : ExtensionGroup ClientHelloData :=
  [(.serverName, ClientHelloData.serverName <$> ServerNameList.parse),
    (.supportedVersions,
      ClientHelloData.supportedVersions <$> SupportedVersionsClientHello.parse),
    (.signatureAlgorithms,
      ClientHelloData.signatureAlgorithms <$> SignatureAlgorithms.parse 25),
    (.supportedGroups, ClientHelloData.supportedGroups <$> SupportedGroups.parse 13),
    (.keyShare, ClientHelloData.keyShare <$> KeyShareClientHello.parse),
    (.preSharedKey, PreSharedKeyClientHello.parse),
    (.pskKeyExchangeModes,
      ClientHelloData.pskKeyExchangeModes <$> PskKeyExchangeModes.parse),
    (.signatureAlgorithmsCert,
      ClientHelloData.signatureAlgorithmsCert <$> SignatureAlgorithms.parse 25),
    (.maxFragmentLength, ClientHelloData.maxFragmentLength <$> MaxFragmentLength.parse),
    (.statusRequest, unimplemented),
    (.useSrtp, unimplemented),
    (.heartbeat, unimplemented),
    (.applicationLayerProtocolNegotiation,
      (fun _ => ClientHelloData.applicationLayerProtocolNegotiation []) <$>
        AlpnProtocolNameList.parse),
    (.signedCertificateTimestamp, unimplemented),
    (.clientCertificateType, unimplemented),
    (.serverCertificateType, unimplemented),
    (.padding, unimplemented),
    (.earlyData, unimplemented),
    (.cookie, unimplemented),
    (.certificateAuthorities, unimplemented),
    (.oidFilters, unimplemented),
    (.postHandshakeAuth, unimplemented)]

end ClientHelloExtension

/-! ## The bytes -/

def vector (width : Nat) (bytes : List UInt8) : List UInt8 :=
  numberBytes width bytes.length ++ bytes

def ServerName.bytes (s : ServerName) : List UInt8 :=
  s.nameType.toByte :: vector 2 s.name

def KeyShareEntry.bytes (entry : KeyShareEntry) : List UInt8 :=
  numberBytes 2 entry.group.asU16 ++ vector 2 entry.opaqueBytes

namespace ClientHelloData

def bytes : ClientHelloData -> List UInt8
  | serverName names => vector 2 (names.flatMap ServerName.bytes)
  | supportedVersions versions => vector 1 (versions.flatMap (numberBytes 2))
  | signatureAlgorithms schemes => vector 2 (schemes.flatMap (fun s => numberBytes 2 s.asU16))
  | supportedGroups groups => vector 2 (groups.flatMap (fun g => numberBytes 2 g.asU16))
  | keyShare shares => vector 2 (shares.flatMap KeyShareEntry.bytes)
  | preSharedKey identities hashSize =>
      vector 2 (identities.flatMap (fun identity => vector 2 identity ++ numberBytes 4 0)) ++
        (numberBytes 2 (PreSharedKeyClientHello.bindersLen identities hashSize) ++
          List.replicate (PreSharedKeyClientHello.bindersLen identities hashSize) 0)
  | pskKeyExchangeModes modes => vector 1 (modes.flatMap (fun mode => [mode.toByte]))
  | signatureAlgorithmsCert schemes =>
      vector 2 (schemes.flatMap (fun s => numberBytes 2 s.asU16))
  | maxFragmentLength length => [length.toByte]
  | applicationLayerProtocolNegotiation protocols =>
      vector 2 (protocols.flatMap (fun protocol => [UInt8.ofNat protocol.length] ++ protocol))
  | unimplemented data => data

end ClientHelloData

def ClientHelloExtension.bytes (extension : ClientHelloExtension) : List UInt8 :=
  numberBytes 2 extension.1.asU16 ++ vector 2 extension.2.bytes

section Encoding

open CryptoBuffer

theorem number_encodes (num : Nat) : Encodes (orEncodeError (pushU16 num)) (numberBytes 2 num) :=
  orEncodeError_encodes (extendFromSlice_encodes _)

theorem byte_encodes (byte : UInt8) : Encodes (orEncodeError (push byte)) [byte] :=
  orEncodeError_encodes (push_encodes byte)

theorem opaque_encodes (bytes : List UInt8) :
    Encodes (orEncodeError (withU16Length (extendFromSlice bytes))) (vector 2 bytes) :=
  orEncodeError_encodes (withU16Length_encodes (extendFromSlice_encodes bytes))

theorem serverName_encodes (s : ServerName) : Encodes s.encode s.bytes :=
  (byte_encodes s.nameType.toByte).seq (opaque_encodes s.name)

theorem keyShareEntry_encodes (entry : KeyShareEntry) : Encodes entry.encode entry.bytes :=
  (number_encodes entry.group.asU16).seq (opaque_encodes entry.opaqueBytes)

theorem list16_encodes {item : Type} {encode : item -> Encode Unit}
    {bytes : item -> List UInt8} (h : forall x, Encodes (encode x) (bytes x))
    (items : List item) :
    Encodes (withU16Length (Emitter.each encode items)) (vector 2 (items.flatMap bytes)) :=
  withU16Length_encodes (Emitter.Appends.each (fun x _ => h x))

theorem list8_encodes {item : Type} {encode : item -> Encode Unit}
    {bytes : item -> List UInt8} (h : forall x, Encodes (encode x) (bytes x))
    (items : List item) :
    Encodes (withU8Length (Emitter.each encode items)) (vector 1 (items.flatMap bytes)) :=
  withU8Length_encodes (Emitter.Appends.each (fun x _ => h x))

theorem preSharedKey_encodes (identities : List (List UInt8)) (hashSize : Nat) :
    Encodes (PreSharedKeyClientHello.encode identities hashSize)
      (ClientHelloData.preSharedKey identities hashSize).bytes := by
  have hidentity (identity : List UInt8) :
      Encodes (do
        orEncodeError (withU16Length (extendFromSlice identity))
        orEncodeError (pushU32 0)) (vector 2 identity ++ numberBytes 4 0) :=
    (opaque_encodes identity).seq (orEncodeError_encodes (extendFromSlice_encodes _))
  have hzeros (n : Nat) : Encodes (Emitter.each (fun _ => orEncodeError (push 0)) (List.range n))
      (List.replicate n 0) := by
    have heach : Encodes (Emitter.each (fun _ => orEncodeError (push 0)) (List.range n))
        ((List.range n).flatMap (fun _ => [0])) :=
      Emitter.Appends.each (fun _ _ => byte_encodes 0)
    refine heach.of_eq ?_
    rw [← List.map_eq_flatMap, List.map_const', List.length_range]
  refine Emitter.Appends.seq (orEncodeError_encodes (list16_encodes hidentity identities)) ?_
  exact (number_encodes _).seq (hzeros _)

theorem scheme_encodes (s : SignatureScheme) :
    Encodes (orEncodeError (pushU16 s.asU16)) (numberBytes 2 s.asU16) :=
  number_encodes s.asU16

theorem group_encodes (g : NamedGroup) : Encodes g.encode (numberBytes 2 g.asU16) :=
  number_encodes g.asU16

theorem mode_encodes (mode : PskKeyExchangeMode) : Encodes mode.encode [mode.toByte] :=
  byte_encodes mode.toByte

theorem protocol_encodes (protocol : List UInt8) :
    Encodes (do
      orEncodeError (push (UInt8.ofNat protocol.length))
      extendFromSlice protocol) ([UInt8.ofNat protocol.length] ++ protocol) :=
  (byte_encodes _).seq (extendFromSlice_encodes protocol)

theorem data_encodes (d : ClientHelloData) : Encodes d.encode d.bytes := by
  cases d with
  | serverName names =>
      unfold ClientHelloData.encode ClientHelloData.bytes ServerNameList.encode
      exact list16_encodes serverName_encodes names
  | supportedVersions versions =>
      unfold ClientHelloData.encode ClientHelloData.bytes SupportedVersionsClientHello.encode
      exact list8_encodes number_encodes versions
  | signatureAlgorithms schemes =>
      unfold ClientHelloData.encode ClientHelloData.bytes SignatureAlgorithms.encode
      exact list16_encodes scheme_encodes schemes
  | supportedGroups groups =>
      unfold ClientHelloData.encode ClientHelloData.bytes SupportedGroups.encode
      exact list16_encodes group_encodes groups
  | keyShare shares =>
      unfold ClientHelloData.encode ClientHelloData.bytes KeyShareClientHello.encode
      exact list16_encodes keyShareEntry_encodes shares
  | preSharedKey identities hashSize => exact preSharedKey_encodes identities hashSize
  | pskKeyExchangeModes modes =>
      unfold ClientHelloData.encode ClientHelloData.bytes PskKeyExchangeModes.encode
      exact list8_encodes mode_encodes modes
  | signatureAlgorithmsCert schemes =>
      unfold ClientHelloData.encode ClientHelloData.bytes SignatureAlgorithms.encode
      exact list16_encodes scheme_encodes schemes
  | maxFragmentLength length => exact byte_encodes length.toByte
  | applicationLayerProtocolNegotiation protocols =>
      unfold ClientHelloData.encode ClientHelloData.bytes AlpnProtocolNameList.encode
      exact list16_encodes protocol_encodes protocols
  | unimplemented data => exact extendFromSlice_encodes data

theorem extension_encodes (extension : ClientHelloExtension) :
    Encodes extension.encode extension.bytes :=
  (number_encodes extension.1.asU16).seq (withU16Length_encodes (data_encodes extension.2))

end Encoding

/-! ## The bytes are read back -/

namespace ClientHelloExtension

def unimplementedTypes : List ExtensionType :=
  [.statusRequest, .useSrtp, .heartbeat, .signedCertificateTimestamp, .clientCertificateType,
    .serverCertificateType, .padding, .earlyData, .cookie, .certificateAuthorities,
    .oidFilters, .postHandshakeAuth]

/-- The data belongs to the type, and its lists fit into the vectors of the parser. -/
inductive Allowed : ClientHelloExtension -> Prop where
  | serverName {names : List ServerName} (hroom : names.length ≤ 1)
      (hascii : forall s, s ∈ names -> ServerName.isAscii s.name = true) :
      Allowed (.serverName, .serverName names)
  | supportedVersions {versions : List Nat} (hroom : versions.length ≤ 1)
      (hversion : forall v, v ∈ versions -> v < 256 ^ 2) :
      Allowed (.supportedVersions, .supportedVersions versions)
  | signatureAlgorithms {schemes : List SignatureScheme} (hroom : schemes.length ≤ 25) :
      Allowed (.signatureAlgorithms, .signatureAlgorithms schemes)
  | supportedGroups {groups : List NamedGroup} (hroom : groups.length ≤ 13) :
      Allowed (.supportedGroups, .supportedGroups groups)
  | keyShare {shares : List KeyShareEntry} (hroom : shares.length ≤ 1) :
      Allowed (.keyShare, .keyShare shares)
  | pskKeyExchangeModes {modes : List PskKeyExchangeMode} (hroom : modes.length ≤ 4) :
      Allowed (.pskKeyExchangeModes, .pskKeyExchangeModes modes)
  | signatureAlgorithmsCert {schemes : List SignatureScheme} (hroom : schemes.length ≤ 25) :
      Allowed (.signatureAlgorithmsCert, .signatureAlgorithmsCert schemes)
  | maxFragmentLength (l : MaxFragmentLength) :
      Allowed (.maxFragmentLength, .maxFragmentLength l)
  | applicationLayerProtocolNegotiation {protocols : List (List UInt8)}
      (hname : forall p, p ∈ protocols -> p ≠ [] ∧ p.length < 256) :
      Allowed (.applicationLayerProtocolNegotiation,
        .applicationLayerProtocolNegotiation protocols)
  | unimplemented {extType : ExtensionType} (htype : extType ∈ unimplementedTypes)
      (data : List UInt8) : Allowed (extType, .unimplemented data)

/-- The parser does not keep the names of protocols. -/
def readBack : ClientHelloData -> ClientHelloData
  | .applicationLayerProtocolNegotiation _ => .applicationLayerProtocolNegotiation []
  | d => d

end ClientHelloExtension

section Reading

variable {alpha : Type}

theorem group_reads (g : NamedGroup) : NamedGroup.parse.Reads (numberBytes 2 g.asU16) g := by
  refine parseCode_reads (number_reads ?_) ?_
  · cases g <;> decide
  · cases g <;> rfl

theorem scheme_reads (s : SignatureScheme) :
    SignatureScheme.parse.Reads (numberBytes 2 s.asU16) s := by
  refine parseCode_reads (number_reads ?_) ?_
  · cases s <;> decide
  · cases s <;> rfl

theorem mode_reads (mode : PskKeyExchangeMode) :
    PskKeyExchangeMode.parse.Reads [mode.toByte] mode := by
  refine parseCode_reads (readU8_reads _) ?_
  cases mode <;> rfl

theorem fragmentLength_reads (l : MaxFragmentLength) :
    MaxFragmentLength.parse.Reads [l.toByte] l := by
  refine parseCode_reads (readU8_reads _) ?_
  cases l <;> rfl

theorem length_vector (width : Nat) (bytes : List UInt8) :
    (vector width bytes).length = width + bytes.length := by
  unfold vector
  rw [List.length_append, length_numberBytes]

theorem slice16_reads {bytes : List UInt8} (h : bytes.length < 256 ^ 2)
    {f : ParseBuffer -> Parse alpha} {a : alpha} (hf : (f (Cursor.start bytes)).Reads [] a) :
    (readU16 >>= fun len => slice len >>= f).Reads (vector 2 bytes) a := by
  have hrest := (slice_reads bytes).bind hf
  rw [List.append_nil] at hrest
  exact (number_reads h).bind (f := fun len => slice len >>= f) hrest

theorem serverName_reads {s : ServerName} (hascii : ServerName.isAscii s.name = true)
    (hlen : s.name.length < 256 ^ 2) : ServerName.parse.Reads s.bytes s := by
  have htype : NameType.parse.Reads [s.nameType.toByte] s.nameType := by
    refine parseCode_reads (readU8_reads _) ?_
    cases s.nameType
    rfl
  refine htype.bind (slice16_reads hlen ?_)
  have hname : ServerName.isAscii (Cursor.start s.name).buffer = true := hascii
  rw [if_pos hname]
  exact Parser.Reads.succeed

theorem keyShareEntry_reads {entry : KeyShareEntry}
    (hlen : entry.opaqueBytes.length < 256 ^ 2) :
    KeyShareEntry.parse.Reads entry.bytes entry :=
  (group_reads entry.group).bind (slice16_reads hlen Parser.Reads.succeed)

theorem list16_reads {capacity : Nat} {read : Parse alpha} {bytes : alpha -> List UInt8}
    {items : List alpha}
    (hread : forall x, x ∈ items -> bytes x ≠ [] ∧ read.Reads (bytes x) x)
    (hroom : items.length ≤ capacity) (hlen : (items.flatMap bytes).length < 256 ^ 2) :
    (readU16 >>= fun dataLength => readList capacity dataLength read).Reads
      (vector 2 (items.flatMap bytes)) items :=
  (number_reads hlen).bind (readList_reads hread hroom)

theorem list8_reads {capacity : Nat} {read : Parse alpha} {bytes : alpha -> List UInt8}
    {items : List alpha}
    (hread : forall x, x ∈ items -> bytes x ≠ [] ∧ read.Reads (bytes x) x)
    (hroom : items.length ≤ capacity) (hlen : (items.flatMap bytes).length < 256) :
    (readU8 >>= fun dataLength => readList capacity dataLength.toNat read).Reads
      (vector 1 (items.flatMap bytes)) items := by
  have hnat : (UInt8.ofNat (items.flatMap bytes).length).toNat =
      (items.flatMap bytes).length := by
    rw [UInt8.toNat_ofNat']
    exact Nat.mod_eq_of_lt hlen
  have hlist := readList_reads hread hroom
  rw [← hnat] at hlist
  exact (readU8_reads _).bind (f := fun dataLength =>
    readList capacity dataLength.toNat read) hlist

theorem length_le_flatMap (bytes : alpha -> List UInt8) {items : List alpha} {x : alpha}
    (h : x ∈ items) : (bytes x).length ≤ (items.flatMap bytes).length := by
  rw [List.flatMap_def]
  exact (List.sublist_flatten_of_mem (List.mem_map_of_mem h)).length_le

theorem alpn_reads {protocols : List (List UInt8)}
    (h : forall p, p ∈ protocols -> p ≠ [] ∧ p.length < 256)
    (hlen : (protocols.flatMap (fun p => [UInt8.ofNat p.length] ++ p)).length < 256 ^ 2) :
    AlpnProtocolNameList.parse.Reads
      (vector 2 (protocols.flatMap (fun p => [UInt8.ofNat p.length] ++ p))) () := by
  refine slice16_reads hlen ?_
  have hall : (Parser.whileNonempty (fun _ => do
      let nameLen <- readU8
      if nameLen = 0 then
        Parser.fail .invalidData
      else do
        let _ <- slice nameLen.toNat
        pure ()) () : Parse Unit).ReadsAll
          (protocols.flatMap (fun p => [UInt8.ofNat p.length] ++ p))
          (protocols.foldl (fun _ _ => ()) ()) := by
    refine Parser.ReadsAll.whileNonempty
      (fun _ rest => forall p, p ∈ rest -> p ≠ [] ∧ p.length < 256) ?_ h
    intro _ p rest hrest
    rcases hrest p List.mem_cons_self with ⟨hsome, hshort⟩
    have hpos : 0 < p.length := List.length_pos_iff.mpr hsome
    have hnat : (UInt8.ofNat p.length).toNat = p.length := by
      rw [UInt8.toNat_ofNat']
      exact Nat.mod_eq_of_lt hshort
    refine ⟨by simp, ?_, fun q hq => hrest q (List.mem_cons_of_mem p hq)⟩
    refine (readU8_reads _).bind ?_
    rw [if_neg]
    · have hslice := slice_reads p
      rw [← hnat] at hslice
      have hunit := hslice.bind (f := fun _ => (pure () : Parse Unit)) Parser.Reads.succeed
      rw [List.append_nil] at hunit
      exact hunit
    · intro hzero
      rw [hzero] at hnat
      have hempty : (0 : UInt8).toNat = 0 := rfl
      omega
  exact (Parser.Reads.within (Cursor.start_valid _) hall).bind (f := fun r => pure r.1)
    Parser.Reads.succeed

namespace ClientHelloExtension

theorem unimplemented_reads {extType : ExtensionType} (h : extType ∈ unimplementedTypes) :
    group.find? (fun entry => entry.1 == extType) = some (extType, unimplemented) := by
  simp only [unimplementedTypes, List.mem_cons, List.not_mem_nil, or_false] at h
  rcases h with rfl | rfl | rfl | rfl | rfl | rfl | rfl | rfl | rfl | rfl | rfl | rfl <;> rfl

theorem data_reads {extension : ClientHelloExtension} (h : Allowed extension)
    (hlen : extension.2.bytes.length < 256 ^ 2) :
    exists parser behind, group.find? (fun entry => entry.1 == extension.1) =
      some (extension.1, parser) ∧
        parser (Cursor.start extension.2.bytes) = .ok (.ok (readBack extension.2), behind) := by
  have hshort {bytes : List UInt8} (hvector : (vector 2 bytes).length < 256 ^ 2) :
      bytes.length < 256 ^ 2 := by
    rw [length_vector] at hvector
    omega
  have hall {p : Parse ClientHelloData} {tok : List UInt8} {d : ClientHelloData}
      (hp : p.Reads tok d) :
      p (Cursor.start tok) = .ok (.ok d, (Cursor.start tok).advance tok.length) :=
    hp.all _ (Cursor.start_valid tok) rfl
  cases h with
  | serverName hroom hascii =>
      have hnames := hshort hlen
      refine ⟨_, _, rfl, hall (Parser.Reads.map (list16_reads ?_ hroom hnames) _)⟩
      intro s hs
      refine ⟨List.cons_ne_nil _ _, serverName_reads (hascii s hs) (hshort ?_)⟩
      have hle := length_le_flatMap ServerName.bytes hs
      rw [ServerName.bytes, List.length_cons] at hle
      omega
  | supportedVersions hroom hversion =>
      refine ⟨_, _, rfl, hall (Parser.Reads.map (list8_reads ?_ hroom ?_) _)⟩
      · intro v hv
        exact ⟨by simp [numberBytes], number_reads (hversion v hv)⟩
      · simp only [List.length_flatMap, length_numberBytes, List.map_const',
          List.sum_replicate_nat]
        omega
  | signatureAlgorithms hroom =>
      refine ⟨_, _, rfl, hall (Parser.Reads.map (list16_reads ?_ hroom (hshort hlen)) _)⟩
      intro s _
      exact ⟨by simp [numberBytes], scheme_reads s⟩
  | supportedGroups hroom =>
      refine ⟨_, _, rfl, hall (Parser.Reads.map (list16_reads ?_ hroom (hshort hlen)) _)⟩
      intro g _
      exact ⟨by simp [numberBytes], group_reads g⟩
  | keyShare hroom =>
      have hshares := hshort hlen
      refine ⟨_, _, rfl, hall (Parser.Reads.map (list16_reads ?_ hroom hshares) _)⟩
      intro entry hentry
      refine ⟨by simp [KeyShareEntry.bytes, numberBytes], keyShareEntry_reads (hshort ?_)⟩
      have hle := length_le_flatMap KeyShareEntry.bytes hentry
      rw [KeyShareEntry.bytes, List.length_append] at hle
      omega
  | pskKeyExchangeModes hroom =>
      refine ⟨_, _, rfl, hall (Parser.Reads.map (list8_reads ?_ hroom ?_) _)⟩
      · intro mode _
        exact ⟨List.cons_ne_nil _ _, mode_reads mode⟩
      · simp only [List.length_flatMap, List.length_singleton, List.map_const',
          List.sum_replicate_nat]
        omega
  | signatureAlgorithmsCert hroom =>
      refine ⟨_, _, rfl, hall (Parser.Reads.map (list16_reads ?_ hroom (hshort hlen)) _)⟩
      intro s _
      exact ⟨by simp [numberBytes], scheme_reads s⟩
  | maxFragmentLength l => exact ⟨_, _, rfl, hall (Parser.Reads.map (fragmentLength_reads l) _)⟩
  | applicationLayerProtocolNegotiation hname =>
      exact ⟨_, _, rfl, hall (Parser.Reads.map (alpn_reads hname (hshort hlen)) _)⟩
  | unimplemented htype data => exact ⟨_, _, unimplemented_reads htype, rfl⟩

theorem parse_reads {extension : ClientHelloExtension} (h : Allowed extension)
    (hlen : extension.2.bytes.length < 256 ^ 2) :
    (ExtensionGroup.parse group).Reads extension.bytes
      (extension.1, readBack extension.2) := by
  rcases data_reads h hlen with ⟨parser, behind, hfind, hdata⟩
  have hreads := ExtensionGroup.parse_reads hfind hdata hlen
  rw [List.append_assoc] at hreads
  exact hreads

end ClientHelloExtension

end Reading
end EmbeddedTls
end TWA
