import Mathlib.Data.List.Basic
import TWA.EmbeddedTls.ParseBuffer

/-!
# Extensions

An extension is a type, a length and data of that length.  Each message allows
some types of extensions, and has a parser for the data of each.  A type that
nobody knows is skipped; a known one in the wrong message aborts the handshake.
-/

namespace TWA
namespace EmbeddedTls

open Foundation
open Foundation.Exec
open ParseBuffer

inductive ExtensionType where
  | serverName
  | maxFragmentLength
  | statusRequest
  | supportedGroups
  | signatureAlgorithms
  | useSrtp
  | heartbeat
  | applicationLayerProtocolNegotiation
  | signedCertificateTimestamp
  | clientCertificateType
  | serverCertificateType
  | padding
  | compressCertificate
  | preSharedKey
  | earlyData
  | supportedVersions
  | cookie
  | pskKeyExchangeModes
  | certificateAuthorities
  | oidFilters
  | postHandshakeAuth
  | signatureAlgorithmsCert
  | keyShare
  deriving DecidableEq, Repr

namespace ExtensionType

def asU16 : ExtensionType -> Nat
  | serverName => 0
  | maxFragmentLength => 1
  | statusRequest => 5
  | supportedGroups => 10
  | signatureAlgorithms => 13
  | useSrtp => 14
  | heartbeat => 15
  | applicationLayerProtocolNegotiation => 16
  | signedCertificateTimestamp => 18
  | clientCertificateType => 19
  | serverCertificateType => 20
  | padding => 21
  | compressCertificate => 27
  | preSharedKey => 41
  | earlyData => 42
  | supportedVersions => 43
  | cookie => 44
  | pskKeyExchangeModes => 45
  | certificateAuthorities => 47
  | oidFilters => 48
  | postHandshakeAuth => 49
  | signatureAlgorithmsCert => 50
  | keyShare => 51

def all : List ExtensionType :=
  [serverName, maxFragmentLength, statusRequest, supportedGroups, signatureAlgorithms,
    useSrtp, heartbeat, applicationLayerProtocolNegotiation, signedCertificateTimestamp,
    clientCertificateType, serverCertificateType, padding, compressCertificate,
    preSharedKey, earlyData, supportedVersions, cookie, pskKeyExchangeModes,
    certificateAuthorities, oidFilters, postHandshakeAuth, signatureAlgorithmsCert,
    keyShare]

end ExtensionType

inductive NamedGroup where
  | secp256r1
  | secp384r1
  | secp521r1
  | x25519
  | x448
  | ffdhe2048
  | ffdhe3072
  | ffdhe4096
  | ffdhe6144
  | ffdhe8192
  | x25519MLKEM768
  | secP256r1MLKEM768
  | secP384r1MLKEM1024
  deriving DecidableEq, Repr

namespace NamedGroup

def asU16 : NamedGroup -> Nat
  | secp256r1 => 0x0017
  | secp384r1 => 0x0018
  | secp521r1 => 0x0019
  | x25519 => 0x001D
  | x448 => 0x001E
  | ffdhe2048 => 0x0100
  | ffdhe3072 => 0x0101
  | ffdhe4096 => 0x0102
  | ffdhe6144 => 0x0103
  | ffdhe8192 => 0x0104
  | secP256r1MLKEM768 => 0x11EB
  | x25519MLKEM768 => 0x11EC
  | secP384r1MLKEM1024 => 0x11ED

def all : List NamedGroup :=
  [secp256r1, secp384r1, secp521r1, x25519, x448, ffdhe2048, ffdhe3072, ffdhe4096,
    ffdhe6144, ffdhe8192, secP256r1MLKEM768, x25519MLKEM768, secP384r1MLKEM1024]

end NamedGroup

inductive SignatureScheme where
  | rsaPkcs1Sha256
  | rsaPkcs1Sha384
  | rsaPkcs1Sha512
  | ecdsaSecp256r1Sha256
  | ecdsaSecp384r1Sha384
  | ecdsaSecp521r1Sha512
  | rsaPssRsaeSha256
  | rsaPssRsaeSha384
  | rsaPssRsaeSha512
  | ed25519
  | ed448
  | rsaPssPssSha256
  | rsaPssPssSha384
  | rsaPssPssSha512
  | sha224Ecdsa
  | sha224Rsa
  | sha224Dsa
  | rsaPkcs1Sha1
  | ecdsaSha1
  | sha256BrainpoolP256r1
  | sha384BrainpoolP384r1
  | sha512BrainpoolP512r1
  | mlDsa44
  | mlDsa65
  | mlDsa87
  deriving DecidableEq, Repr

namespace SignatureScheme

def asU16 : SignatureScheme -> Nat
  | rsaPkcs1Sha256 => 0x0401
  | rsaPkcs1Sha384 => 0x0501
  | rsaPkcs1Sha512 => 0x0601
  | ecdsaSecp256r1Sha256 => 0x0403
  | ecdsaSecp384r1Sha384 => 0x0503
  | ecdsaSecp521r1Sha512 => 0x0603
  | rsaPssRsaeSha256 => 0x0804
  | rsaPssRsaeSha384 => 0x0805
  | rsaPssRsaeSha512 => 0x0806
  | ed25519 => 0x0807
  | ed448 => 0x0808
  | rsaPssPssSha256 => 0x0809
  | rsaPssPssSha384 => 0x080a
  | rsaPssPssSha512 => 0x080b
  | sha224Ecdsa => 0x0303
  | sha224Rsa => 0x0301
  | sha224Dsa => 0x0302
  | rsaPkcs1Sha1 => 0x0201
  | ecdsaSha1 => 0x0203
  | sha256BrainpoolP256r1 => 0x081A
  | sha384BrainpoolP384r1 => 0x081B
  | sha512BrainpoolP512r1 => 0x081C
  | mlDsa44 => 0x0904
  | mlDsa65 => 0x0905
  | mlDsa87 => 0x0906

def all : List SignatureScheme :=
  [rsaPkcs1Sha256, rsaPkcs1Sha384, rsaPkcs1Sha512, ecdsaSecp256r1Sha256,
    ecdsaSecp384r1Sha384, ecdsaSecp521r1Sha512, rsaPssRsaeSha256, rsaPssRsaeSha384,
    rsaPssRsaeSha512, ed25519, ed448, rsaPssPssSha256, rsaPssPssSha384, rsaPssPssSha512,
    sha224Ecdsa, sha224Rsa, sha224Dsa, rsaPkcs1Sha1, ecdsaSha1, sha256BrainpoolP256r1,
    sha384BrainpoolP384r1, sha512BrainpoolP512r1, mlDsa44, mlDsa65, mlDsa87]

end SignatureScheme

inductive MaxFragmentLength where
  | bits9
  | bits10
  | bits11
  | bits12
  deriving DecidableEq, Repr

namespace MaxFragmentLength

def toByte : MaxFragmentLength -> UInt8
  | bits9 => 1
  | bits10 => 2
  | bits11 => 3
  | bits12 => 4

def all : List MaxFragmentLength := [bits9, bits10, bits11, bits12]

end MaxFragmentLength

/-! ## Parsers of extension data -/

/-- The member of an enumeration that has the code that is read. -/
def parseCode {code enum : Type} [BEq code] (read : Parse code) (all : List enum)
    (codeOf : enum -> code) : Parse enum := do
  let value <- read
  match all.find? (fun x => codeOf x == value) with
  | some x => pure x
  | none => Parser.fail .invalidData

def ExtensionType.parse : Parse ExtensionType :=
  parseCode readU16 ExtensionType.all ExtensionType.asU16

def NamedGroup.parse : Parse NamedGroup :=
  parseCode readU16 NamedGroup.all NamedGroup.asU16

def SignatureScheme.parse : Parse SignatureScheme :=
  parseCode readU16 SignatureScheme.all SignatureScheme.asU16

def MaxFragmentLength.parse : Parse MaxFragmentLength :=
  parseCode readU8 MaxFragmentLength.all MaxFragmentLength.toByte

structure KeyShareEntry where
  group : NamedGroup
  opaqueBytes : List UInt8
  deriving DecidableEq, Repr

def KeyShareEntry.parse : Parse KeyShareEntry := do
  let group <- NamedGroup.parse
  let opaqueLen <- readU16
  let opaqueBytes <- slice opaqueLen
  pure { group := group, opaqueBytes := opaqueBytes.buffer }

def SupportedGroups.parse (capacity : Nat) : Parse (List NamedGroup) := do
  let dataLength <- readU16
  readList capacity dataLength NamedGroup.parse

def SignatureAlgorithms.parse (capacity : Nat) : Parse (List SignatureScheme) := do
  let dataLength <- readU16
  readList capacity dataLength SignatureScheme.parse

/-- Only the format of the list is checked; the names are not kept. -/
def AlpnProtocolNameList.parse : Parse Unit := do
  let listLen <- readU16
  let listBuf <- slice listLen
  let (result, _) <- Parser.within listBuf (Parser.whileNonempty (fun _ => do
    let nameLen <- readU8
    if nameLen = 0 then
      Parser.fail .invalidData
    else do
      let _ <- slice nameLen.toNat
      pure ()) ())
  pure result

def ServerNameResponse.parse : Parse Unit := fun buf =>
  if isEmpty buf then Parser.succeed () buf else Parser.fail .invalidData buf

/-- All of the data, which is left unread. -/
def Unimplemented.parse : Parse (List UInt8) :=
  fun buf => Parser.succeed buf.buffer buf

inductive ExtensionData where
  | keyShare (entry : KeyShareEntry)
  | preSharedKey (selectedIdentity : Nat)
  | supportedVersions (selectedVersion : Nat)
  | serverName
  | maxFragmentLength (length : MaxFragmentLength)
  | supportedGroups (groups : List NamedGroup)
  | signatureAlgorithms (schemes : List SignatureScheme)
  | applicationLayerProtocolNegotiation
  | unimplemented (data : List UInt8)
  deriving DecidableEq, Repr

def KeyShareServerHello.parse : Parse ExtensionData :=
  ExtensionData.keyShare <$> KeyShareEntry.parse

def PreSharedKeyServerHello.parse : Parse ExtensionData :=
  ExtensionData.preSharedKey <$> readU16

def SupportedVersionsServerHello.parse : Parse ExtensionData :=
  ExtensionData.supportedVersions <$> readU16

/-! ## Groups of extensions -/

/-- The extensions that a message allows, with the parsers of their data. -/
abbrev ExtensionGroup (data : Type) : Type := List (ExtensionType × Parse data)

namespace ExtensionGroup

def unimplemented : Parse ExtensionData :=
  ExtensionData.unimplemented <$> Unimplemented.parse

def serverHello : ExtensionGroup ExtensionData :=
  [(.keyShare, KeyShareServerHello.parse),
    (.preSharedKey, PreSharedKeyServerHello.parse),
    (.cookie, unimplemented),
    (.supportedVersions, SupportedVersionsServerHello.parse)]

def encryptedExtensions : ExtensionGroup ExtensionData :=
  [(.serverName, (fun _ => ExtensionData.serverName) <$> ServerNameResponse.parse),
    (.maxFragmentLength, ExtensionData.maxFragmentLength <$> MaxFragmentLength.parse),
    (.supportedGroups, ExtensionData.supportedGroups <$> SupportedGroups.parse 13),
    (.useSrtp, unimplemented),
    (.heartbeat, unimplemented),
    (.applicationLayerProtocolNegotiation,
      (fun _ => ExtensionData.applicationLayerProtocolNegotiation) <$>
        AlpnProtocolNameList.parse),
    (.clientCertificateType, unimplemented),
    (.serverCertificateType, unimplemented),
    (.earlyData, unimplemented)]

def certificateRequest : ExtensionGroup ExtensionData :=
  [(.statusRequest, unimplemented),
    (.signatureAlgorithms,
      ExtensionData.signatureAlgorithms <$> SignatureAlgorithms.parse 25),
    (.signedCertificateTimestamp, unimplemented),
    (.certificateAuthorities, unimplemented),
    (.oidFilters, unimplemented),
    (.signatureAlgorithmsCert, unimplemented),
    (.compressCertificate, unimplemented)]

def certificate : ExtensionGroup ExtensionData :=
  [(.statusRequest, unimplemented),
    (.signedCertificateTimestamp, unimplemented)]

def newSessionTicket : ExtensionGroup ExtensionData :=
  [(.earlyData, unimplemented)]

/-- The type and the data of an extension; a type that cannot be read is kept as an
error until the data has been consumed. -/
def parseHeader : Decode (Except ParseError ExtensionType × ParseBuffer) := do
  let extensionType <- Parser.observe ExtensionType.parse
  let dataLen <- Parser.mapError (fun _ => ProtocolError.decodeError) readU16
  let extData <- Parser.mapError (fun _ => ProtocolError.decodeError) (slice dataLen)
  pure (extensionType, extData)

section Groups

variable {data : Type}

def parseData (group : ExtensionGroup data) (extensionType : Except ParseError ExtensionType)
    (extData : ParseBuffer) : Decode (ExtensionType × data) :=
  match extensionType with
  | .error .invalidData => Parser.fail .unknownExtensionType
  | .error _ => Parser.fail .decodeError
  | .ok extType =>
      match group.find? (fun entry => entry.1 == extType) with
      | some entry => do
          let (value, _) <- Parser.within extData
            (Parser.mapError (fun _ => ProtocolError.decodeError) entry.2)
          pure (extType, value)
      | none => Parser.fail (.abortHandshake .fatal .illegalParameter)

def parse (group : ExtensionGroup data) : Decode (ExtensionType × data) := do
  let (extensionType, extData) <- parseHeader
  parseData group extensionType extData

/-- What is done with an extension of a list: one of an unknown type is left out. -/
def collect (capacity : Nat) (extensions : List (ExtensionType × data)) :
    Except ProtocolError (ExtensionType × data) ->
      Decode (List (ExtensionType × data))
  | .ok extension => push capacity .decodeError extensions extension
  | .error .unknownExtensionType => pure extensions
  | .error e => Parser.fail e

def parseVector (capacity : Nat) (group : ExtensionGroup data) :
    Decode (List (ExtensionType × data)) := do
  let extensionsLen <-
    Parser.mapError (fun _ => ProtocolError.invalidExtensionsLength) readU16
  let extBuf <- Parser.mapError ProtocolError.parse (slice extensionsLen)
  let (extensions, _) <- Parser.within extBuf (Parser.whileNonempty (fun extensions => do
    let r <- Parser.observe (parse group)
    collect capacity extensions r) [])
  pure extensions

end Groups
end ExtensionGroup

theorem parseCode_reads {code enum : Type} [BEq code] {read : Parse code} {tok : List UInt8}
    {all : List enum} {codeOf : enum -> code} {x : enum} (hread : read.Reads tok (codeOf x))
    (hfind : all.find? (fun y => codeOf y == codeOf x) = some x) :
    (parseCode read all codeOf).Reads tok x := by
  have hrest : (match all.find? (fun y => codeOf y == codeOf x) with
      | some x => pure x
      | none => Parser.fail .invalidData : Parse enum).Reads [] x := by
    rw [hfind]
    exact Parser.Reads.succeed
  have hboth := hread.bind (f := fun value =>
    match all.find? (fun y => codeOf y == value) with
    | some x => pure x
    | none => Parser.fail .invalidData) hrest
  rw [List.append_nil] at hboth
  exact hboth

theorem parseCode_refuses {code enum : Type} [BEq code] {read : Parse code}
    {tok : List UInt8} {all : List enum} {codeOf : enum -> code} {value : code}
    (hread : read.Reads tok value) (hfind : all.find? (fun y => codeOf y == value) = none) :
    (parseCode read all codeOf).Refuses tok .invalidData := by
  have hrest : (match all.find? (fun y => codeOf y == value) with
      | some x => pure x
      | none => Parser.fail .invalidData : Parse enum).Refuses [] .invalidData := by
    rw [hfind]
    exact Parser.Refuses.fail
  have hboth := Parser.Refuses.behind hread (f := fun value =>
    match all.find? (fun y => codeOf y == value) with
    | some x => pure x
    | none => Parser.fail .invalidData) hrest
  rw [List.append_nil] at hboth
  exact hboth

namespace ExtensionGroup

section Reading

variable {data item : Type} {group : ExtensionGroup data}

theorem parse_reads {extType : ExtensionType} {parser : Parse data} {tok : List UInt8}
    {value : data} {behind : ParseBuffer} (hfind : group.find? (fun entry =>
      entry.1 == extType) = some (extType, parser))
    (hdata : parser (Cursor.start tok) = .ok (.ok value, behind))
    (hlen : tok.length < 256 ^ 2) :
    (parse group).Reads (numberBytes 2 extType.asU16 ++ numberBytes 2 tok.length ++ tok)
      (extType, value) := by
  have htype : ExtensionType.parse.Reads (numberBytes 2 extType.asU16) extType := by
    refine parseCode_reads (number_reads ?_) ?_
    · cases extType <;> decide
    · cases extType <;> rfl
  have hvalue : (parseData group (.ok extType) (Cursor.start tok)).Reads []
      (extType, value) := by
    have hrun : Parser.mapError (fun _ => ProtocolError.decodeError) parser
        (Cursor.start tok) = .ok (.ok value, behind) := by
      unfold Parser.mapError
      rw [hdata]
      rfl
    have hwithin := Parser.Reads.within_run hrun
    have hpair := hwithin.bind (f := fun r => pure (extType, r.1)) Parser.Reads.succeed
    unfold parseData
    simp only [hfind]
    exact hpair
  have htok : numberBytes 2 extType.asU16 ++ numberBytes 2 tok.length ++ tok =
      (numberBytes 2 extType.asU16 ++ (numberBytes 2 tok.length ++ (tok ++ []))) ++ [] := by
    simp only [List.append_nil, List.append_assoc]
  rw [htok]
  refine Parser.Reads.bind (a := (.ok extType, Cursor.start tok)) ?_ hvalue
  refine Parser.Reads.bind htype.observe ?_
  refine Parser.Reads.bind ((number_reads hlen).mapError _) ?_
  exact Parser.Reads.bind ((slice_reads tok).mapError _) Parser.Reads.succeed

theorem parse_refuses (group : ExtensionGroup data) {code : Nat} (hcode : code < 256 ^ 2)
    (hunknown : forall t, t ∈ ExtensionType.all -> t.asU16 ≠ code) {tok : List UInt8}
    (hlen : tok.length < 256 ^ 2) :
    (parse group).Refuses (numberBytes 2 code ++ numberBytes 2 tok.length ++ tok)
      .unknownExtensionType := by
  have htype : ExtensionType.parse.Refuses (numberBytes 2 code) .invalidData := by
    refine parseCode_refuses (number_reads hcode) (List.find?_eq_none.mpr ?_)
    intro t ht
    simpa using hunknown t ht
  have hrefused : (parseData group (.error .invalidData) (Cursor.start tok)).Refuses []
      .unknownExtensionType :=
    Parser.Refuses.fail
  have htok : numberBytes 2 code ++ numberBytes 2 tok.length ++ tok =
      (numberBytes 2 code ++ (numberBytes 2 tok.length ++ (tok ++ []))) ++ [] := by
    simp only [List.append_nil, List.append_assoc]
  rw [htok]
  refine Parser.Refuses.behind (a := (.error .invalidData, Cursor.start tok)) ?_ hrefused
  refine Parser.Reads.bind htype.observe ?_
  refine Parser.Reads.bind ((number_reads hlen).mapError _) ?_
  exact Parser.Reads.bind ((slice_reads tok).mapError _) Parser.Reads.succeed

/-- What the group makes of an extension: a value, or nothing where the type is unknown. -/
def Takes (group : ExtensionGroup data) (tok : List UInt8) :
    Option (ExtensionType × data) -> Prop
  | some value => (parse group).Reads tok value
  | none => (parse group).Refuses tok .unknownExtensionType

theorem collect_reads {capacity : Nat} {tok : List UInt8} {value : Option (ExtensionType × data)}
    (htakes : Takes group tok value) {done : List (ExtensionType × data)}
    (hroom : done.length + value.toList.length ≤ capacity) :
    (do
      let r <- Parser.observe (parse group)
      collect capacity done r : Decode (List (ExtensionType × data))).Reads tok
        (done ++ value.toList) := by
  cases value with
  | none =>
      have hskip : (collect capacity done (.error .unknownExtensionType)).Reads [] done :=
        Parser.Reads.succeed
      have hboth := (Parser.Refuses.observe htakes).bind (f := collect capacity done) hskip
      rw [List.append_nil] at hboth
      simpa using hboth
  | some value =>
      have hpush : (collect capacity done (.ok value)).Reads [] (done ++ [value]) := by
        simp only [Option.toList_some, List.length_singleton] at hroom
        simp only [collect, push]
        rw [if_pos (by omega)]
        exact Parser.Reads.succeed
      have hboth := (Parser.Reads.observe htakes).bind (f := collect capacity done) hpush
      rw [List.append_nil] at hboth
      exact hboth

/-- A list of extensions behind its length, one read after the other; those of an unknown
type are left out. -/
theorem parseVector_takes {capacity : Nat} {items : List item} {bytes : item -> List UInt8}
    {value : item -> Option (ExtensionType × data)}
    (htakes : forall x, x ∈ items -> bytes x ≠ [] ∧ Takes group (bytes x) (value x))
    (hroom : (items.filterMap value).length ≤ capacity)
    (hlen : (items.flatMap bytes).length < 256 ^ 2) :
    (parseVector capacity group).Reads
      (numberBytes 2 (items.flatMap bytes).length ++ items.flatMap bytes)
      (items.filterMap value) := by
  have hall : (Parser.whileNonempty (fun extensions => do
      let r <- Parser.observe (parse group)
      collect capacity extensions r) []).ReadsAll (items.flatMap bytes)
        (items.foldl (fun done x => done ++ (value x).toList) []) := by
    refine Parser.ReadsAll.whileNonempty
      (fun done rest => done.length + (rest.flatMap fun x => (value x).toList).length ≤ capacity ∧
        forall x, x ∈ rest -> x ∈ items) ?_ ⟨?_, fun _ h => h⟩
    · intro done x rest hfits
      rcases hfits with ⟨hdone, hmem⟩
      rw [List.flatMap_cons, List.length_append] at hdone
      rcases htakes x (hmem x List.mem_cons_self) with ⟨hsome, htakes⟩
      refine ⟨hsome, collect_reads htakes (by omega), ?_, ?_⟩
      · rw [List.length_append]
        omega
      · intro y hy
        exact hmem y (List.mem_cons_of_mem x hy)
    · rw [List.filterMap_eq_flatMap_toList] at hroom
      simpa using hroom
  have hfold : items.foldl (fun done x => done ++ (value x).toList) [] =
      items.filterMap value := by
    rw [List.filterMap_eq_flatMap_toList]
    simp [← List.flatMap_def]
  rw [hfold] at hall
  have hwithin := Parser.Reads.within (Cursor.start_valid (items.flatMap bytes)) hall
  have hlist := hwithin.bind (f := fun r => pure r.1) Parser.Reads.succeed
  have htok : numberBytes 2 (items.flatMap bytes).length ++ items.flatMap bytes =
      numberBytes 2 (items.flatMap bytes).length ++ (items.flatMap bytes ++ ([] ++ [])) := by
    simp only [List.append_nil]
  rw [htok]
  refine Parser.Reads.bind ((number_reads hlen).mapError _) ?_
  exact Parser.Reads.bind ((slice_reads _).mapError _) hlist

theorem parseVector_reads {capacity : Nat} {items : List item} {bytes : item -> List UInt8}
    {value : item -> ExtensionType × data}
    (hread : forall x, x ∈ items -> bytes x ≠ [] ∧ (parse group).Reads (bytes x) (value x))
    (hroom : items.length ≤ capacity) (hlen : (items.flatMap bytes).length < 256 ^ 2) :
    (parseVector capacity group).Reads
      (numberBytes 2 (items.flatMap bytes).length ++ items.flatMap bytes)
      (items.map value) := by
  rw [← List.filterMap_eq_map]
  refine parseVector_takes hread ?_ hlen
  rw [List.filterMap_eq_map, List.length_map]
  exact hroom

theorem parseVector_nil_reads (capacity : Nat) (group : ExtensionGroup data) :
    (parseVector capacity group).Reads (numberBytes 2 0) [] := by
  have hnone : (parseVector capacity group).Reads
      (numberBytes 2 (([] : List Empty).flatMap nofun).length ++ ([] : List Empty).flatMap nofun)
      (([] : List Empty).map nofun) :=
    parseVector_reads (fun x _ => nomatch x) (Nat.zero_le _) (by decide)
  simpa using hnone

end Reading
end ExtensionGroup

/-! ## On every buffer -/

theorem parseCode_safe {code enum : Type} [BEq code] {read : Parse code} {n : Nat}
    {Q : code -> Prop} (hread : read.Safe n Q) (all : List enum) (codeOf : enum -> code) :
    (parseCode read all codeOf).Safe n (fun _ => True) := by
  refine hread.bind (m := 0) ?_
  intro value _
  split
  · exact Parser.Safe.succeed True.intro
  · exact Parser.Safe.fail _

theorem map_safe {err alpha beta : Type} {p : Parser UInt8 err alpha} {n : Nat}
    {Q : alpha -> Prop} (hp : p.Safe n Q) (g : alpha -> beta) :
    (g <$> p).Safe n (fun _ => True) := by
  have hbind : (p >>= fun a => pure (g a)).Safe (n + 0) (fun _ => True) :=
    hp.bind (fun _ _ => Parser.Safe.succeed True.intro)
  exact hbind

theorem namedGroup_safe : NamedGroup.parse.Safe 2 (fun _ => True) :=
  parseCode_safe (readNumber_safe 2) _ _

theorem signatureScheme_safe : SignatureScheme.parse.Safe 2 (fun _ => True) :=
  parseCode_safe (readNumber_safe 2) _ _

theorem keyShareEntry_safe : KeyShareEntry.parse.Safe 4 (fun _ => True) := by
  refine namedGroup_safe.bind (m := 2) ?_
  intro _ _
  refine (readNumber_safe 2).bind (m := 0) ?_
  intro opaqueLen _
  refine ((slice_safe opaqueLen).bind (m := 0) ?_).mono (Nat.zero_le _) (fun _ h => h)
  intro _ _
  exact Parser.Safe.succeed True.intro

theorem prefixedList_safe {alpha : Type} {read : Parse alpha} {n : Nat}
    (hread : read.Safe n (fun _ => True)) (hn : 1 ≤ n) (capacity : Nat) :
    (readU16 >>= fun dataLength => readList capacity dataLength read).Safe 2
      (fun _ => True) := by
  refine (readNumber_safe 2).bind (m := 0) ?_
  intro dataLength _
  exact (readList_safe hread hn).mono (Nat.zero_le _) (fun _ _ => True.intro)

theorem alpn_safe : AlpnProtocolNameList.parse.Safe 2 (fun _ => True) := by
  refine (readNumber_safe 2).bind (m := 0) ?_
  intro listLen _
  refine ((slice_safe listLen).bind (m := 0) ?_).mono (Nat.zero_le _) (fun _ h => h)
  intro listBuf hlist
  refine (Parser.Safe.within (Q := fun _ => True) hlist (n := 0) ?_).bind (m := 0)
    (fun _ _ => Parser.Safe.succeed True.intro)
  apply Parser.Safe.whileNonempty
  · intro _ _
    refine readU8_safe.bind (m := 0) ?_
    intro nameLen _
    apply Parser.Safe.ite
    · intro _
      exact Parser.Safe.fail _
    · intro _
      refine ((slice_safe nameLen.toNat).bind (m := 0) ?_).mono (Nat.zero_le _)
        (fun _ h => h)
      intro _ _
      exact Parser.Safe.succeed True.intro
  · exact True.intro

theorem serverNameResponse_safe : ServerNameResponse.parse.Safe 0 (fun _ => True) := by
  intro buf hbuf
  unfold ServerNameResponse.parse
  split
  · exact Parser.Safe.succeed True.intro buf hbuf
  · exact Parser.Safe.fail _ buf hbuf

theorem unimplemented_safe : ExtensionGroup.unimplemented.Safe 0 (fun _ => True) := by
  have hparse : Unimplemented.parse.Safe 0 (fun _ => True) := by
    intro buf hbuf
    exact Parser.Safe.succeed True.intro buf hbuf
  exact map_safe hparse _

namespace ExtensionGroup

def AllSafe {data : Type} (group : ExtensionGroup data) : Prop :=
  forall entry, entry ∈ group -> entry.2.Safe 0 (fun _ => True)

theorem serverHello_safe : serverHello.AllSafe := by
  have hentry := map_safe keyShareEntry_safe ExtensionData.keyShare
  have hnumber (g : Nat -> ExtensionData) := map_safe (readNumber_safe 2) g
  simp only [AllSafe, serverHello, List.forall_mem_cons, List.not_mem_nil, false_imp_iff,
    implies_true, and_true]
  exact ⟨hentry.mono (Nat.zero_le _) (fun _ h => h),
    (hnumber _).mono (Nat.zero_le _) (fun _ h => h), unimplemented_safe,
    (hnumber _).mono (Nat.zero_le _) (fun _ h => h)⟩

theorem encryptedExtensions_safe : encryptedExtensions.AllSafe := by
  have hlength := map_safe (parseCode_safe readU8_safe MaxFragmentLength.all
    MaxFragmentLength.toByte) ExtensionData.maxFragmentLength
  have hgroups := map_safe (prefixedList_safe namedGroup_safe (by decide) 13)
    ExtensionData.supportedGroups
  have halpn := map_safe alpn_safe
    (fun _ => ExtensionData.applicationLayerProtocolNegotiation)
  simp only [AllSafe, encryptedExtensions, List.forall_mem_cons, List.not_mem_nil,
    false_imp_iff, implies_true, and_true]
  exact ⟨map_safe serverNameResponse_safe _, hlength.mono (Nat.zero_le _) (fun _ h => h),
    hgroups.mono (Nat.zero_le _) (fun _ h => h), unimplemented_safe, unimplemented_safe,
    halpn.mono (Nat.zero_le _) (fun _ h => h), unimplemented_safe, unimplemented_safe,
    unimplemented_safe⟩

theorem certificateRequest_safe : certificateRequest.AllSafe := by
  have hschemes := map_safe (prefixedList_safe signatureScheme_safe (by decide) 25)
    ExtensionData.signatureAlgorithms
  simp only [AllSafe, certificateRequest, List.forall_mem_cons, List.not_mem_nil,
    false_imp_iff, implies_true, and_true]
  exact ⟨unimplemented_safe, hschemes.mono (Nat.zero_le _) (fun _ h => h),
    unimplemented_safe, unimplemented_safe, unimplemented_safe, unimplemented_safe,
    unimplemented_safe⟩

theorem certificate_safe : certificate.AllSafe := by
  simp only [AllSafe, certificate, List.forall_mem_cons, List.not_mem_nil,
    false_imp_iff, implies_true, and_true]
  exact ⟨unimplemented_safe, unimplemented_safe⟩

theorem newSessionTicket_safe : newSessionTicket.AllSafe := by
  simp only [AllSafe, newSessionTicket, List.forall_mem_cons, List.not_mem_nil,
    false_imp_iff, implies_true, and_true]
  exact unimplemented_safe

variable {data : Type} {group : ExtensionGroup data}

theorem parseHeader_safe : parseHeader.Safe 2 (fun r => r.2.Valid) := by
  have htype : (Parser.observe ExtensionType.parse : Decode _).Safe 0 (fun _ => True) :=
    (parseCode_safe (readNumber_safe 2) ExtensionType.all ExtensionType.asU16).observe
  refine htype.bind (m := 2) ?_
  intro extensionType _
  refine ((readNumber_safe 2).mapError _).bind (m := 0) ?_
  intro dataLen _
  refine (((slice_safe dataLen).mapError _).bind (m := 0) ?_).mono (Nat.zero_le _)
    (fun _ h => h)
  intro extData hdata
  exact Parser.Safe.succeed hdata

theorem parseData_safe (hgroup : group.AllSafe)
    (extensionType : Except ParseError ExtensionType) {extData : ParseBuffer}
    (hdata : extData.Valid) :
    (parseData group extensionType extData).Safe 0 (fun _ => True) := by
  unfold parseData
  split
  · exact Parser.Safe.fail _
  · exact Parser.Safe.fail _
  · split
    · rename_i entry hfind
      have hentry := hgroup entry (List.mem_of_find?_eq_some hfind)
      exact (Parser.Safe.within hdata (hentry.mapError _)).bind (m := 0)
        (fun _ _ => Parser.Safe.succeed True.intro)
    · exact Parser.Safe.fail _

theorem parseHeader_failsOnly : parseHeader.FailsOnly (fun e => e = .decodeError) := by
  have hfails {alpha : Type} (p : Parse alpha) :
      (Parser.mapError (fun _ => ProtocolError.decodeError) p).FailsOnly
        (fun e => e = .decodeError) :=
    Parser.FailsOnly.mapError _ p (fun _ => rfl)
  refine (Parser.FailsOnly.observe _).bind ?_
  intro extensionType
  refine (hfails _).bind ?_
  intro dataLen
  refine (hfails _).bind ?_
  intro extData
  exact Parser.FailsOnly.succeed _

theorem parse_spec (hgroup : group.AllSafe) (c : ParseBuffer) (hc : c.Valid) :
    exists r k, parse group c = .ok (r, c.advance k) ∧ c.pos + k ≤ c.buffer.length ∧
      (r ≠ .error .decodeError -> 2 ≤ k) := by
  rcases parseHeader_safe c hc with ⟨r, k, hrun, hk, hr⟩
  show exists r k, Parser.andThen parseHeader
    (fun r => parseData group r.1 r.2) c = .ok (r, c.advance k) ∧ _
  unfold Parser.andThen
  rw [hrun, ok_bind]
  cases r with
  | ok header =>
      rcases hr header rfl with ⟨htwo, hdata⟩
      rcases parseData_safe hgroup header.1 hdata (c.advance k) hk with
        ⟨r', k', hrun', hk', _⟩
      simp only [Cursor.advance_pos, Cursor.advance_buffer] at hk'
      refine ⟨r', k + k', ?_, by omega, fun _ => by omega⟩
      simp only [hrun', Cursor.advance_advance]
  | error e =>
      refine ⟨.error e, k, rfl, hk, ?_⟩
      intro hne
      rw [parseHeader_failsOnly c e _ hrun] at hne
      exact absurd rfl hne

theorem collect_safe (capacity : Nat) (extensions : List (ExtensionType × data))
    (r : Except ProtocolError (ExtensionType × data)) :
    (collect capacity extensions r).Safe 0 (fun _ => True) := by
  unfold collect
  split
  · exact (push_safe _ _ _ _).trivial
  · exact Parser.Safe.succeed True.intro
  · exact Parser.Safe.fail _

theorem collectNext_safe (hgroup : group.AllSafe) (capacity : Nat)
    (extensions : List (ExtensionType × data)) :
    (Parser.observe (parse group) >>= collect capacity extensions).Safe 1
      (fun _ => True) := by
  intro c hc
  rcases parse_spec hgroup c hc with ⟨r, k, hrun, hk, htwo⟩
  show exists r k, Parser.andThen (Parser.observe (parse group))
    (collect capacity extensions) c = .ok (r, c.advance k) ∧ _
  rcases collect_safe capacity extensions r (c.advance k) hk with ⟨r', k', hrun', hk', _⟩
  simp only [Cursor.advance_pos, Cursor.advance_buffer] at hk'
  refine ⟨r', k + k', ?_, by omega, ?_⟩
  · unfold Parser.andThen Parser.observe
    rw [hrun]
    simp only [ok_bind, pure_eq_ok, hrun', Cursor.advance_advance]
  · intro result hresult
    refine ⟨?_, True.intro⟩
    have hread : r ≠ .error .decodeError := by
      intro hbad
      rw [hbad] at hrun'
      have hsame := (Prod.mk.inj (Except.ok.inj hrun')).1
      rw [hresult] at hsame
      cases hsame
    have hlong := htwo hread
    omega

theorem parseVector_safe (hgroup : group.AllSafe) (capacity : Nat) :
    (parseVector capacity group).Safe 2 (fun _ => True) := by
  refine ((readNumber_safe 2).mapError _).bind (m := 0) ?_
  intro extensionsLen _
  refine (((slice_safe extensionsLen).mapError _).bind (m := 0) ?_).mono (Nat.zero_le _)
    (fun _ h => h)
  intro extBuf hbuf
  refine (Parser.Safe.within (Q := fun _ => True) hbuf (n := 0) ?_).bind (m := 0)
    (fun _ _ => Parser.Safe.succeed True.intro)
  exact Parser.Safe.whileNonempty
    (fun extensions _ => collectNext_safe hgroup capacity extensions) True.intro

end ExtensionGroup
end EmbeddedTls
end TWA
