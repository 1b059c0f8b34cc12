import TWA.EmbeddedTls.Handling
import TWA.EmbeddedTls.ReadResumption

/-!
# What a server sends on an open connection

A text holds data, or tickets one after the other, then the type of its content,
and padding.  Each text is sealed under its number and goes out as one record.
-/

namespace TWA
namespace EmbeddedTls

open Foundation
open ParseBuffer

/-- An extension of a ticket: early data, or one of a type that the client does not know. -/
structure TicketExtension where
  code : Nat
  data : List UInt8
  code_lt : code < 256 ^ 2
  data_lt : data.length < 256 ^ 2
  allowed : forall t, t ∈ ExtensionType.all -> t.asU16 = code -> t = .earlyData

namespace TicketExtension

def bytes (e : TicketExtension) : List UInt8 :=
  numberBytes 2 e.code ++ numberBytes 2 e.data.length ++ e.data

def value (e : TicketExtension) : Option (ExtensionType × ExtensionData) :=
  if e.code = ExtensionType.earlyData.asU16 then
    some (.earlyData, .unimplemented e.data)
  else
    none

theorem bytes_ne_nil (e : TicketExtension) : e.bytes ≠ [] := by
  intro hnil
  have hlen := congrArg List.length hnil
  simp only [bytes, List.length_append, length_numberBytes, List.length_nil] at hlen
  omega

theorem takes (e : TicketExtension) :
    ExtensionGroup.Takes ExtensionGroup.newSessionTicket e.bytes e.value := by
  unfold value bytes
  by_cases hcode : e.code = ExtensionType.earlyData.asU16
  · rw [if_pos hcode, hcode]
    have hfind : ExtensionGroup.newSessionTicket.find? (fun entry =>
        entry.1 == ExtensionType.earlyData) =
          some (ExtensionType.earlyData, ExtensionGroup.unimplemented) :=
      rfl
    have hdata : ExtensionGroup.unimplemented (Cursor.start e.data) =
        .ok (.ok (.unimplemented e.data), Cursor.start e.data) :=
      rfl
    exact ExtensionGroup.parse_reads hfind hdata e.data_lt
  · rw [if_neg hcode]
    refine ExtensionGroup.parse_refuses _ e.code_lt ?_ e.data_lt
    intro t ht heq
    have hearly := e.allowed t ht heq
    rw [hearly] at heq
    exact hcode heq.symm

end TicketExtension

/-- A ticket for a later session.  Early data is offered at most once. -/
structure SessionTicket where
  lifetime : Nat
  ageAdd : Nat
  nonce : List UInt8
  ticket : List UInt8
  extensions : List TicketExtension
  lifetime_lt : lifetime < 256 ^ 4
  ageAdd_lt : ageAdd < 256 ^ 4
  nonce_lt : nonce.length < 256
  ticket_lt : ticket.length < 256 ^ 2
  extensions_lt : (extensions.flatMap TicketExtension.bytes).length < 256 ^ 2
  extensions_once : (extensions.filterMap TicketExtension.value).length ≤ 1

namespace SessionTicket

def extensionBytes (t : SessionTicket) : List UInt8 :=
  t.extensions.flatMap TicketExtension.bytes

def body (t : SessionTicket) : List UInt8 :=
  numberBytes 4 t.lifetime ++ numberBytes 4 t.ageAdd ++ [UInt8.ofNat t.nonce.length] ++
    t.nonce ++ numberBytes 2 t.ticket.length ++ t.ticket ++
    numberBytes 2 t.extensionBytes.length ++ t.extensionBytes

def message (t : SessionTicket) : List UInt8 :=
  [HandshakeType.newSessionTicket.toByte] ++ numberBytes 3 t.body.length ++ t.body

theorem extensions_read (t : SessionTicket) :
    (ExtensionGroup.parseVector 1 ExtensionGroup.newSessionTicket).Reads
      (numberBytes 2 t.extensionBytes.length ++ t.extensionBytes)
      (t.extensions.filterMap TicketExtension.value) :=
  ExtensionGroup.parseVector_takes (fun e _ => ⟨e.bytes_ne_nil, e.takes⟩) t.extensions_once
    t.extensions_lt

theorem body_reads (t : SessionTicket) : NewSessionTicket.parse.Reads t.body () := by
  have hnonceLen : (UInt8.ofNat t.nonce.length).toNat = t.nonce.length := by
    have hlt := t.nonce_lt
    rw [UInt8.toNat_ofNat']
    exact Nat.mod_eq_of_lt hlt
  have hnonce : (slice (UInt8.ofNat t.nonce.length).toNat).Reads t.nonce
      (Cursor.start t.nonce) := by
    rw [hnonceLen]
    exact slice_reads t.nonce
  have htok : t.body = numberBytes 4 t.lifetime ++ (numberBytes 4 t.ageAdd ++
      ([UInt8.ofNat t.nonce.length] ++ (t.nonce ++ (numberBytes 2 t.ticket.length ++
        (t.ticket ++ ((numberBytes 2 t.extensionBytes.length ++ t.extensionBytes) ++
          [])))))) := by
    simp only [body, List.append_assoc, List.append_nil]
  rw [htok]
  unfold NewSessionTicket.parse
  refine Parser.Reads.bind ((number_reads t.lifetime_lt).mapError _) ?_
  refine Parser.Reads.bind ((number_reads t.ageAdd_lt).mapError _) ?_
  refine Parser.Reads.bind ((readU8_reads _).mapError _) ?_
  refine Parser.Reads.bind (hnonce.mapError _) ?_
  refine Parser.Reads.bind ((number_reads t.ticket_lt).mapError _) ?_
  refine Parser.Reads.bind ((slice_reads t.ticket).mapError _) ?_
  exact Parser.Reads.bind t.extensions_read Parser.Reads.succeed

theorem message_reads (suite : TlsCipherSuite) (t : SessionTicket) :
    (ServerHandshake.parse suite).Reads t.message .newSessionTicket := by
  have hbytes : t.message = HandshakeType.newSessionTicket.toByte ::
      (numberBytes 3 t.body.length ++ t.body) := rfl
  rw [hbytes]
  exact ServerHandshake.parse_reads (length_numberBytes 3 _) (t.body_reads.map _)

theorem onlyTickets (suite : TlsCipherSuite) (tickets : List SessionTicket)
    {buf : ParseBuffer} (hbuf : buf.Valid) (hrest : buf.rest = tickets.flatMap message) :
    OnlyTickets suite buf := by
  induction tickets generalizing buf with
  | nil =>
      have hlen := buf.length_rest
      rw [hrest] at hlen
      exact OnlyTickets.nil hlen.symm
  | cons t tickets ih =>
      rw [List.flatMap_cons] at hrest
      have hparse := message_reads suite t buf _ hbuf hrest
      exact OnlyTickets.cons hparse
        (ih (Cursor.valid_behind hbuf hrest) (Cursor.rest_advance hrest))

end SessionTicket

/-! ## Texts -/

inductive ServerContent where
  | data (bytes : List UInt8)
  | tickets (tickets : List SessionTicket)

namespace ServerContent

def plain (padding : Nat) : ServerContent -> List UInt8
  | data bytes =>
      bytes ++ [ContentType.applicationData.toByte] ++ List.replicate padding 0
  | tickets ts =>
      ts.flatMap SessionTicket.message ++ [ContentType.handshake.toByte] ++
        List.replicate padding 0

def bytes : ServerContent -> List UInt8
  | data bytes => bytes
  | tickets _ => []

theorem plain_harmless (suite : TlsCipherSuite) (padding : Nat) (content : ServerContent) :
    Harmless suite (content.plain padding) := by
  cases content with
  | data bytes =>
      refine ⟨bytes, Or.inl ?_⟩
      exact stripPadding_append bytes padding (by decide)
  | tickets ts =>
      refine ⟨ts.flatMap SessionTicket.message, Or.inr ⟨?_, ?_⟩⟩
      · exact stripPadding_append _ padding (by decide)
      · exact SessionTicket.onlyTickets suite ts (Cursor.start_valid _) rfl

theorem applicationBytes_plain (padding : Nat) (content : ServerContent) :
    applicationBytes (content.plain padding) = content.bytes := by
  cases content with
  | data bytes =>
      exact applicationBytes_of_data (stripPadding_append bytes padding (by decide))
  | tickets ts =>
      exact applicationBytes_of_other (stripPadding_append _ padding (by decide)) (by decide)

end ServerContent

/-! ## Sealed records -/

section Records

variable (suite : TlsCipherSuite)

def sealedHeader (plain : List UInt8) : RecordHeader :=
  { header := [ContentType.applicationData.toByte, 0x03, 0x03] ++
      numberBytes 2 (plain.length + suite.tagLen) }

theorem contentLength_sealedHeader {plain : List UInt8}
    (hfits : plain.length + suite.tagLen < 256 ^ 2) :
    (sealedHeader suite plain).contentLength = plain.length + suite.tagLen := by
  have hnumber := bigEndian_numberBytes hfits
  have hlen : (sealedHeader suite plain).contentLength =
      bigEndian (numberBytes 2 (plain.length + suite.tagLen)) := by
    simp [RecordHeader.contentLength, sealedHeader, bigEndian, numberBytes]
  rw [hlen]
  exact hnumber

def sealedRecord (key iv : List UInt8) (i : Nat) (plain : List UInt8)
    (hfits : plain.length + suite.tagLen < 256 ^ 2) : Record where
  header := sealedHeader suite plain
  body := suite.encrypt key (getNonce i iv) (sealedHeader suite plain).header plain
  header_length := rfl
  decodes := rfl
  body_length := by
    rw [suite.length_encrypt, contentLength_sealedHeader suite hfits]

end Records

structure ServerText (suite : TlsCipherSuite) where
  content : ServerContent
  padding : Nat
  fits : (content.plain padding).length + suite.tagLen < 256 ^ 2

namespace ServerText

variable {suite : TlsCipherSuite}

def plain (t : ServerText suite) : List UInt8 :=
  t.content.plain t.padding

def header (t : ServerText suite) : RecordHeader :=
  sealedHeader suite t.plain

theorem contentLength_header (t : ServerText suite) :
    t.header.contentLength = t.plain.length + suite.tagLen :=
  contentLength_sealedHeader suite t.fits

def sealed (key iv : List UInt8) (i : Nat) (t : ServerText suite) : Record :=
  sealedRecord suite key iv i t.plain t.fits

def sealAll (key iv : List UInt8) : Nat -> List (ServerText suite) -> List Record
  | _, [] => []
  | i, t :: ts => t.sealed key iv i :: sealAll key iv (i + 1) ts

theorem sealAll_append (key iv : List UInt8) (i : Nat) (ts us : List (ServerText suite)) :
    sealAll key iv i (ts ++ us) =
      sealAll key iv i ts ++ sealAll key iv (i + ts.length) us := by
  induction ts generalizing i with
  | nil => rfl
  | cons t ts ih =>
      rw [List.cons_append, sealAll, sealAll, List.cons_append, ih, List.length_cons,
        Nat.add_assoc, Nat.add_comm 1]

end ServerText
end EmbeddedTls
end TWA
