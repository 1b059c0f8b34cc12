import TWA.EmbeddedTls.ClientMessages
import TWA.EmbeddedTls.KeyTree

/-!
# Writing a message as a record

A record of the handshake is built in the write buffer at once: the header, the
message behind it, which is digested as it stands there, and then the record is
closed, sealed if it is to be encrypted.
-/

namespace TWA
namespace EmbeddedTls

open Foundation
open Foundation.Exec
open ParseBuffer (numberBytes)

namespace WriteBuffer

section Writing

variable (suite : TlsCipherSuite) (kx : KeyExchange)

def writePayload (record : ClientRecord) (keys : WriteKeySchedule) (transcript : Transcript)
    (w : WriteBuffer) : Exec (Except ProtocolError Unit × Transcript × WriteBuffer) := do
  let buf <- (CryptoBuffer.wrapWithPos w.buffer w.pos).forward
  match <- record.encodePayload suite kx buf with
  | (.error e, buf) => pure (.error e, transcript, { w with buffer := buf.buf })
  | (.ok _, buf) => do
      let encBuf <- CryptoBuffer.asSlice buf
      let (r, encBuf, transcript) <- record.finishRecord suite encBuf transcript keys
      let buf := { buf with buf := splice buf.buf buf.offset encBuf }
      match r with
      | .error e => pure (.error e, transcript, { w with buffer := buf.buf })
      | .ok _ => do
          let buf <- CryptoBuffer.rewind buf
          pure (.ok (), transcript, { w with buffer := buf.buf, pos := buf.len })

def writeRecord (record : ClientRecord) (keys : WriteKeySchedule) (transcript : Transcript)
    (w : WriteBuffer) :
    Exec (Except ProtocolError (List UInt8) × Transcript × WriteBuffer) :=
  if w.currentHeader.isSome then
    pure (.error .internalError, transcript, w)
  else do
    match <- startRecord record.header w with
    | (.error e, w) => pure (.error (.record e), transcript, w)
    | (.ok _, w) =>
        match <- writePayload suite kx record keys transcript w with
        | (.error e, transcript, w) => pure (.error e, transcript, w)
        | (.ok _, transcript, w) =>
            match <- closeRecord (suite.aead keys.state.key keys.state.iv) keys.state.counter w with
            | (.error e, w) => pure (.error (.record e), transcript, w)
            | (.ok len, w) => do
                let bytes <- slice w.buffer 0 len
                pure (.ok bytes, transcript, w)

end Writing

end WriteBuffer

/-! ## The binders of a hello -/

section Binders

variable (suite : TlsCipherSuite) (kx : KeyExchange)

def bindersSize (psk : Psk) : Nat :=
  psk.identities.length * (1 + suite.hashLen)

def binder (key : List UInt8) (transcript : Transcript) (psk : Psk) (encBuf : List UInt8) :
    List UInt8 :=
  KeyTree.finishedMac suite key (suite.hash
    (transcript ++ encBuf.take (encBuf.length - bindersSize suite psk - 2)))

def withBinders (key : List UInt8) (transcript : Transcript) (psk : Psk)
    (encBuf : List UInt8) : List UInt8 :=
  encBuf.take (encBuf.length - bindersSize suite psk) ++
    psk.identities.flatMap (fun _ =>
      [UInt8.ofNat suite.hashLen] ++ binder suite key transcript psk encBuf)

namespace ClientRecord

def sent (key : List UInt8) (transcript : Transcript) : ClientRecord -> List UInt8
  | handshake (.clientHello hello) false =>
      match hello.config.psk with
      | none => (ClientHandshake.clientHello hello).bytes suite kx
      | some psk =>
          withBinders suite key transcript psk ((ClientHandshake.clientHello hello).bytes suite kx)
  | record => record.payload suite kx

def digested (sent : List UInt8) : ClientRecord -> List UInt8
  | handshake _ _ => sent
  | alert _ _ => []

end ClientRecord

variable {suite kx}

theorem length_binders (psk : Psk) (code : List UInt8) (hcode : code.length = suite.hashLen) :
    (psk.identities.flatMap (fun _ => [UInt8.ofNat suite.hashLen] ++ code)).length =
      bindersSize suite psk := by
  simp only [List.length_flatMap, List.length_append, List.length_singleton, hcode,
    List.map_const', List.sum_replicate_nat]
  rfl

theorem length_binder (key : List UInt8) (transcript : Transcript) (psk : Psk)
    (encBuf : List UInt8) : (binder suite key transcript psk encBuf).length = suite.hashLen :=
  suite.length_hmac _ _

theorem createPskBinder_eq {keys : WriteKeySchedule} {key : List UInt8}
    (h : keys.binderKey = some key) (transcript : Transcript) :
    keys.createPskBinder suite transcript =
      .ok (KeyTree.finishedMac suite key (suite.hash transcript)) := by
  unfold WriteKeySchedule.createPskBinder
  rw [h, makeExpandedHkdfLabel_eq suite key (by decide) (by decide) (by omega)]
  rfl

theorem bindersSize_le (suite : TlsCipherSuite) (kx : KeyExchange) (hello : ClientHello)
    {psk : Psk} (h : hello.config.psk = some psk) :
    bindersSize suite psk + 2 ≤
      ((ClientHandshake.clientHello hello).bytes suite kx).length := by
  have hmem : ((.preSharedKey, .preSharedKey psk.identities suite.hashLen) :
      ClientHelloExtension) ∈ hello.extensions suite kx := by
    simp only [ClientHello.extensions, h, Option.map_some, Option.toList_some, List.mem_append,
      List.mem_singleton, or_true]
  have hle := length_le_flatMap ClientHelloExtension.bytes hmem
  have hmul : bindersSize suite psk =
      PreSharedKeyClientHello.bindersLen psk.identities suite.hashLen := Nat.mul_comm _ _
  simp only [ClientHelloExtension.bytes, ClientHelloData.bytes, List.length_append,
    ParseBuffer.length_numberBytes, length_vector, List.length_replicate] at hle
  simp only [ClientHandshake.bytes, ClientHandshake.body, ClientHello.bytes, List.length_cons,
    length_vector, List.length_append]
  omega

/-- The binders are put into their places, and just the hello with them is digested. -/
theorem finalize_eq {hello : ClientHello} {psk : Psk} (h : hello.config.psk = some psk)
    {keys : WriteKeySchedule} {key : List UInt8} (hkey : keys.binderKey = some key)
    (transcript : Transcript) {encBuf : List UInt8}
    (hlen : bindersSize suite psk + 2 ≤ encBuf.length) :
    hello.finalize suite encBuf transcript keys =
      .ok (.ok (), withBinders suite key transcript psk encBuf,
        transcript ++ withBinders suite key transcript psk encBuf) := by
  have hsize : psk.identities.length * (1 + suite.hashLen) = bindersSize suite psk := rfl
  generalize hcode : binder suite key transcript psk encBuf = code
  generalize hbinders : psk.identities.flatMap (fun _ =>
    [UInt8.ofNat suite.hashLen] ++ code) = binders
  have hcodeLen : code.length = suite.hashLen := by
    rw [← hcode]
    exact length_binder key transcript psk encBuf
  have hbindersLen : binders.length = bindersSize suite psk := by
    rw [← hbinders]
    exact length_binders psk code hcodeLen
  have hencodes : CryptoBuffer.Encodes
      (ClientHello.encodeBinders suite keys
        (transcript ++ encBuf.take (encBuf.length - bindersSize suite psk - 2))
        psk.identities) binders := by
    rw [← hbinders]
    refine Emitter.Appends.each (fun _ _ => ?_)
    rw [createPskBinder_eq hkey]
    show CryptoBuffer.Encodes (PskBinder.encode (binder suite key transcript psk encBuf)) _
    rw [hcode, ← hcodeLen]
    exact (byte_encodes _).seq
      (CryptoBuffer.orEncodeError_encodes (CryptoBuffer.extendFromSlice_encodes code))
  generalize hplaces : (encBuf.take encBuf.length).drop
    (encBuf.length - bindersSize suite psk) = places
  have hplacesLen : places.length = bindersSize suite psk := by
    rw [← hplaces, List.length_drop, List.length_take]
    omega
  have hroom : (CryptoBuffer.wrap places).HasRoom binders.length := by
    show 0 + 0 + binders.length ≤ places.length
    omega
  have hwritten : ((CryptoBuffer.wrap places).append binders).buf = binders := by
    show splice places (0 + 0) binders = binders
    unfold splice
    rw [List.take_zero, List.nil_append, List.drop_eq_nil_of_le (by omega), List.append_nil]
  have hspliced : splice encBuf (encBuf.length - bindersSize suite psk) binders =
      withBinders suite key transcript psk encBuf := by
    unfold splice withBinders
    rw [hcode, hbinders, List.drop_eq_nil_of_le (by omega), List.append_nil]
  have htotal : (withBinders suite key transcript psk encBuf).length = encBuf.length := by
    rw [← hspliced, length_splice (by omega)]
  have hfront : (withBinders suite key transcript psk encBuf).take
      (encBuf.length - bindersSize suite psk - 2) =
        encBuf.take (encBuf.length - bindersSize suite psk - 2) := by
    rw [← hspliced]
    exact take_splice (by omega) (by omega)
  unfold ClientHello.finalize
  rw [h]
  simp only [hsize]
  rw [sub_of_le (by omega), ok_bind, sub_of_le (by omega), ok_bind,
    slice_of_le (Nat.zero_le _) (by omega), ok_bind, slice_of_le (by omega) (Nat.le_refl _),
    ok_bind, List.drop_zero, hplaces, hencodes.written _ hroom, ok_bind]
  simp only
  rw [hwritten, hspliced, htotal,
    slice_of_le (by omega) (Nat.le_of_eq htotal.symm), ok_bind, ← htotal, List.take_length,
    List.append_assoc, htotal, ← hfront, List.take_append_drop]
  rfl

theorem finishRecord_eq (record : ClientRecord) {keys : WriteKeySchedule} {key : List UInt8}
    (hkey : keys.binderKey = some key) (transcript : Transcript) :
    record.finishRecord suite (record.payload suite kx) transcript keys =
      .ok (.ok (), record.sent suite kx key transcript,
        transcript ++ record.digested (record.sent suite kx key transcript)) := by
  cases record with
  | alert a encrypted =>
      unfold ClientRecord.finishRecord ClientRecord.digested
      rw [List.append_nil]
      rfl
  | handshake message encrypted =>
      cases encrypted with
      | true =>
          cases message <;> rfl
      | false =>
          cases message with
          | clientCert cert => rfl
          | clientCertVerify verify => rfl
          | finished f => rfl
          | clientHello hello =>
              cases hpsk : hello.config.psk with
              | none =>
                  simp only [ClientRecord.finishRecord, ClientHandshake.finalize,
                    ClientHello.finalize, hpsk, ClientRecord.sent, ClientRecord.digested,
                    ClientRecord.payload]
                  rfl
              | some psk =>
                  simp only [ClientRecord.finishRecord, ClientHandshake.finalize,
                    ClientRecord.sent, hpsk, ClientRecord.digested, ClientRecord.payload]
                  exact finalize_eq hpsk hkey transcript (bindersSize_le suite kx hello hpsk)

theorem length_sent (record : ClientRecord) (key : List UInt8) (transcript : Transcript) :
    (record.sent suite kx key transcript).length = (record.payload suite kx).length := by
  unfold ClientRecord.sent
  split
  · rename_i hello
    split
    · rfl
    · rename_i psk hpsk
      have hle := bindersSize_le suite kx hello hpsk
      unfold withBinders
      rw [List.length_append, length_binders psk _ (length_binder _ _ _ _), List.length_take]
      show _ = ((ClientHandshake.clientHello hello).bytes suite kx).length
      omega
  · rfl

end Binders

namespace WriteBuffer

/-! ## A record in the buffer -/

/-- Behind the header, whose length is still zero, stands this content. -/
structure Filled (header : ClientRecordHeader) (content : List UInt8) (w : WriteBuffer) :
    Prop where
  current : w.currentHeader = some header
  pos : w.pos = headerSize + content.length
  buffer : exists rest, w.buffer = header.encode ++ u16Bytes 0 ++ content ++ rest

def recordBytes (aead : Aead) (counter : Nat) (header : ClientRecordHeader)
    (content : List UInt8) : List UInt8 :=
  if header.isEncrypted then
    header.encode ++ u16Bytes (content.length + 1 + aead.tagLen) ++
      aead.encrypt counter (additionalData (content.length + 1 + aead.tagLen))
        (content ++ [header.trailerContentType.toByte])
  else
    header.encode ++ u16Bytes content.length ++ content

theorem length_encode (header : ClientRecordHeader) : header.encode.length = 3 := by
  cases header with
  | handshake encrypted => cases encrypted <;> rfl
  | alert encrypted => cases encrypted <;> rfl
  | applicationData => rfl

theorem length_recordBytes (aead : Aead) (counter : Nat) (header : ClientRecordHeader)
    (content : List UInt8) : (recordBytes aead counter header content).length =
      headerSize + content.length + (if header.isEncrypted then 1 + aead.tagLen else 0) := by
  unfold recordBytes headerSize
  split
  · rw [List.length_append, List.length_append, aead.length_encrypt, length_encode,
      List.length_append]
    simp only [u16Bytes, List.length_cons, List.length_nil]
    omega
  · rw [List.length_append, List.length_append, length_encode]
    rfl

variable {w : WriteBuffer} {header : ClientRecordHeader} {content : List UInt8}

theorem startRecord_filled (hpos : w.pos = 0) (hbuffer : tlsRecordOverhead < w.buffer.length)
    (header : ClientRecordHeader) :
    exists w', startRecord header w = .ok (.ok (), w') ∧ Filled header [] w' ∧
      w'.buffer.length = w.buffer.length ∧ w'.pendingLen = w.pendingLen ∧
      w'.pendingSent = w.pendingSent := by
  have hencode := length_encode header
  have hlen : (header.encode ++ u16Bytes 0).length = headerSize := by
    rw [List.length_append, hencode]
    rfl
  unfold tlsRecordOverhead at hbuffer
  have hfit : 0 + (header.encode ++ u16Bytes 0).length ≤ w.buffer.length := by
    rw [hlen]
    unfold headerSize
    omega
  refine ⟨{ w with
      currentHeader := some header
      buffer := splice w.buffer 0 (header.encode ++ u16Bytes 0)
      pos := headerSize }, ?_, ?_, length_splice hfit, rfl, rfl⟩
  · unfold startRecord
    simp only [hpos]
    rw [sub_of_le (Nat.zero_le _), ok_bind, hencode, if_neg (by omega), if_neg (by omega),
      hlen, Nat.zero_add]
    rfl
  · refine ⟨rfl, rfl, w.buffer.drop (0 + (header.encode ++ u16Bytes 0).length), ?_⟩
    simp only [splice, List.take_zero, List.nil_append, List.append_nil]

theorem Filled.wrote (h : Filled header [] w) (bytes : List UInt8) :
    Filled header bytes { w with
      buffer := splice w.buffer headerSize bytes
      pos := headerSize + bytes.length } := by
  rcases h.buffer with ⟨rest, hbuffer⟩
  have hfront : (header.encode ++ u16Bytes 0).length = headerSize := by
    rw [List.length_append, length_encode]
    rfl
  refine ⟨h.current, rfl, w.buffer.drop (headerSize + bytes.length), ?_⟩
  have htake : w.buffer.take headerSize = header.encode ++ u16Bytes 0 := by
    rw [hbuffer, List.append_nil, ← hfront, List.take_left]
  simp only [splice, htake]

theorem Filled.length_le (h : Filled header content w) :
    headerSize + content.length ≤ w.buffer.length := by
  rcases h.buffer with ⟨rest, hbuffer⟩
  have hlen := congrArg List.length hbuffer
  rw [List.length_append, List.length_append, List.length_append, length_encode] at hlen
  simp only [u16Bytes, List.length_cons, List.length_nil] at hlen
  unfold headerSize
  omega

theorem sealContent_filled (aead : Aead) (counter : Nat) (h : Filled header content w)
    (hencrypted : header.isEncrypted = true) :
    (headerSize + content.length + 1 + aead.tagLen ≤ w.buffer.length ->
      exists rest, sealContent aead counter header w.buffer w.pos =
          .ok (.ok (header.encode ++ u16Bytes 0 ++
            aead.encrypt counter (additionalData (content.length + 1 + aead.tagLen))
              (content ++ [header.trailerContentType.toByte]) ++ rest,
            headerSize + (content.length + 1 + aead.tagLen))) ∧
        headerSize + (content.length + 1 + aead.tagLen) + rest.length =
          w.buffer.length) ∧
    (¬ headerSize + content.length + 1 + aead.tagLen ≤ w.buffer.length ->
      exists e, sealContent aead counter header w.buffer w.pos = .ok (.error e)) := by
  have hle := h.length_le
  have hpos := h.pos
  rcases h.buffer with ⟨rest, hbuffer⟩
  have hfront : (header.encode ++ u16Bytes 0).length = headerSize := by
    rw [List.length_append, length_encode]
    rfl
  unfold sealContent
  simp only [hencrypted, Bool.not_true, Bool.false_eq_true, if_false]
  rw [hpos, sub_of_le hle, ok_bind]
  by_cases hfull : w.buffer.length - (headerSize + content.length) = 0
  · rw [if_pos hfull]
    exact ⟨fun hroom => by omega, fun _ => ⟨_, rfl⟩⟩
  · have hlt : headerSize + content.length < w.buffer.length := by omega
    have hset : w.buffer.set (headerSize + content.length) header.trailerContentType.toByte =
        header.encode ++ u16Bytes 0 ++ (content ++ [header.trailerContentType.toByte]) ++
          rest.drop 1 := by
      have hat : (header.encode ++ u16Bytes 0 ++ content).length =
          headerSize + content.length := by
        rw [List.length_append, hfront]
      cases rest with
      | nil =>
          rw [hbuffer, List.append_nil, hat] at hlt
          omega
      | cons r rest =>
          rw [hbuffer, ← hat, List.set_append_right _ _ (Nat.le_refl _), Nat.sub_self]
          simp only [List.set_cons_zero, List.drop_one, List.tail_cons, List.append_assoc,
            List.cons_append, List.nil_append]
    have hsize : headerSize + (content.length + 1) =
        (header.encode ++ u16Bytes 0 ++
          (content ++ [header.trailerContentType.toByte])).length := by
      rw [List.length_append, hfront, List.length_append]
      rfl
    have hsub : headerSize + content.length + 1 - headerSize = content.length + 1 := by omega
    have hlenSet : (w.buffer.set (headerSize + content.length)
        header.trailerContentType.toByte).length = w.buffer.length := List.length_set
    rw [if_neg hfull, store_of_lt _ hlt, ok_bind, sub_of_le (by omega), ok_bind, hsub,
      slice_of_le (Nat.le_add_right _ _) (by rw [hlenSet]; omega), ok_bind, hlenSet]
    have hplain : ((w.buffer.set (headerSize + content.length)
        header.trailerContentType.toByte).take (headerSize + (content.length + 1))).drop
          headerSize = content ++ [header.trailerContentType.toByte] := by
      rw [hset, hsize, List.take_left, ← hfront, List.drop_left]
    simp only [hplain]
    have hsealed := aead.length_encrypt counter
      (additionalData (content.length + 1 + aead.tagLen))
      (content ++ [header.trailerContentType.toByte])
    rw [List.length_append, List.length_singleton] at hsealed
    rw [hsealed]
    constructor
    · intro hroom
      rw [if_neg (by omega), if_neg (by omega)]
      refine ⟨(w.buffer.set (headerSize + content.length)
        header.trailerContentType.toByte).drop (headerSize + (content.length + 1 +
          aead.tagLen)), ?_, by rw [List.length_drop, hlenSet]; omega⟩
      have htake : (w.buffer.set (headerSize + content.length)
          header.trailerContentType.toByte).take headerSize =
            header.encode ++ u16Bytes 0 := by
        rw [hset, List.append_assoc, ← hfront, List.take_left]
      unfold splice
      rw [htake, hsealed]
      rfl
    · intro hroom
      by_cases hlong : content.length + 1 + aead.tagLen > w.buffer.length
      · rw [if_pos hlong]
        exact ⟨_, rfl⟩
      · rw [if_neg hlong, if_pos (by omega)]
        exact ⟨_, rfl⟩

theorem set_length (header : ClientRecordHeader) (n : Nat) (rest : List UInt8) :
    ((header.encode ++ u16Bytes 0 ++ rest).set 3 (UInt8.ofNat (n / 256))).set 4
      (UInt8.ofNat n) = header.encode ++ u16Bytes n ++ rest := by
  cases header with
  | handshake encrypted => cases encrypted <;> rfl
  | alert encrypted => cases encrypted <;> rfl
  | applicationData => rfl

structure Free (w : WriteBuffer) : Prop where
  pos : w.pos = 0
  current : w.currentHeader = none
  pendingLen : w.pendingLen = 0
  pendingSent : w.pendingSent = 0

theorem closeRecord_of_sealed {aead : Aead} {counter : Nat} (h : w.currentHeader = some header)
    {text rest : List UInt8} {len : Nat} (hlen : text.length = len)
    (hseal : sealContent aead counter header w.buffer w.pos =
      .ok (.ok (header.encode ++ u16Bytes 0 ++ text ++ rest, headerSize + len))) :
    exists w', closeRecord aead counter w = .ok (.ok (headerSize + len), w') ∧
      w'.currentHeader = none ∧ w'.pos = 0 ∧ w'.pendingLen = w.pendingLen ∧
      w'.pendingSent = w.pendingSent ∧
      w'.buffer = header.encode ++ u16Bytes len ++ text ++ rest := by
  have hfront (n : Nat) : (header.encode ++ u16Bytes n).length = headerSize := by
    rw [List.length_append, length_encode]
    rfl
  generalize hbuffer : header.encode ++ u16Bytes 0 ++ text ++ rest = buffer at hseal
  have hsize : headerSize + len ≤ buffer.length := by
    rw [← hbuffer, List.length_append, List.length_append, hfront, hlen]
    exact Nat.le_add_right _ _
  have hthree : 3 < buffer.length := by
    unfold headerSize at hsize
    omega
  have hfour : 4 < (buffer.set 3 (UInt8.ofNat (len / 256))).length := by
    rw [List.length_set]
    unfold headerSize at hsize
    omega
  have hsame : ((buffer.set 3 (UInt8.ofNat (len / 256))).set 4 (UInt8.ofNat len)).length =
      buffer.length := by
    rw [List.length_set, List.length_set]
  refine ⟨{ w with
      currentHeader := none
      buffer := (buffer.set 3 (UInt8.ofNat (len / 256))).set 4 (UInt8.ofNat len)
      pos := 0 }, ?_, rfl, rfl, rfl, rfl, ?_⟩
  · unfold closeRecord
    rw [h]
    simp only [hseal, ok_bind]
    rw [sub_of_le (Nat.le_add_right _ _), ok_bind, Nat.add_sub_cancel_left,
      store_of_lt _ hthree, ok_bind, store_of_lt _ hfour, ok_bind,
      slice_of_le (Nat.zero_le _) (by rw [hsame]; exact hsize)]
    rfl
  · simp only
    rw [← hbuffer, List.append_assoc (header.encode ++ u16Bytes 0), set_length,
      ← List.append_assoc]

theorem closeRecord_filled (aead : Aead) (counter : Nat) (h : Filled header content w) :
    ((recordBytes aead counter header content).length ≤ w.buffer.length ->
      exists len w' rest, closeRecord aead counter w = .ok (.ok len, w') ∧
        w'.currentHeader = none ∧ w'.pos = 0 ∧ w'.pendingLen = w.pendingLen ∧
        w'.pendingSent = w.pendingSent ∧
        w'.buffer = recordBytes aead counter header content ++ rest ∧
        w'.buffer.length = w.buffer.length ∧
        len = (recordBytes aead counter header content).length) ∧
    (¬ (recordBytes aead counter header content).length ≤ w.buffer.length ->
      exists e w', closeRecord aead counter w = .ok (.error e, w')) := by
  have hlen := length_recordBytes aead counter header content
  have hle := h.length_le
  cases hencrypted : header.isEncrypted with
  | false =>
      rw [hencrypted, if_neg Bool.false_ne_true] at hlen
      rcases h.buffer with ⟨rest, hbuffer⟩
      have hseal : sealContent aead counter header w.buffer w.pos =
          .ok (.ok (header.encode ++ u16Bytes 0 ++ content ++ rest,
            headerSize + content.length)) := by
        unfold sealContent
        rw [hencrypted, ← hbuffer, h.pos]
        rfl
      have hbytes : recordBytes aead counter header content =
          header.encode ++ u16Bytes content.length ++ content := by
        unfold recordBytes
        rw [hencrypted, if_neg Bool.false_ne_true]
      constructor
      · intro _
        rcases closeRecord_of_sealed h.current rfl hseal with
          ⟨w', hrun, hcurrent, hpos, hpendingLen, hpendingSent, hw'⟩
        rw [hlen, hbytes]
        refine ⟨_, w', rest, hrun, hcurrent, hpos, hpendingLen, hpendingSent, hw', ?_, rfl⟩
        rw [hw', hbuffer]
        simp only [List.length_append]
        rfl
      · intro hroom
        rw [hlen] at hroom
        exact absurd hle hroom
  | true =>
      rw [hencrypted, if_pos rfl] at hlen
      rcases sealContent_filled aead counter h hencrypted with ⟨hfits, hfull⟩
      have hiff : headerSize + content.length + 1 + aead.tagLen ≤ w.buffer.length <->
          (recordBytes aead counter header content).length ≤ w.buffer.length := by
        rw [hlen, Nat.add_assoc _ 1]
      have hbytes : recordBytes aead counter header content =
          header.encode ++ u16Bytes (content.length + 1 + aead.tagLen) ++
            aead.encrypt counter (additionalData (content.length + 1 + aead.tagLen))
              (content ++ [header.trailerContentType.toByte]) := by
        unfold recordBytes
        rw [hencrypted, if_pos rfl]
      constructor
      · intro hroom
        rcases hfits (hiff.mpr hroom) with ⟨rest, hseal, hrest⟩
        have hsealed := aead.length_encrypt counter
          (additionalData (content.length + 1 + aead.tagLen))
          (content ++ [header.trailerContentType.toByte])
        rw [List.length_append, List.length_singleton] at hsealed
        rcases closeRecord_of_sealed h.current hsealed hseal with
          ⟨w', hrun, hcurrent, hpos, hpendingLen, hpendingSent, hw'⟩
        have hbehind := congrArg List.length hw'
        rw [← hbytes, List.length_append, hlen] at hbehind
        rw [hlen, hbytes]
        refine ⟨_, w', rest, hrun, hcurrent, hpos, hpendingLen, hpendingSent, hw', ?_, ?_⟩
        · omega
        · omega
      · intro hroom
        rcases hfull (fun hfit => hroom (hiff.mp hfit)) with ⟨e, hseal⟩
        refine ⟨e, { w with currentHeader := none }, ?_⟩
        unfold closeRecord
        rw [h.current]
        simp only [hseal, ok_bind]
        rfl

/-! ## A record is written -/

section Record

variable {suite : TlsCipherSuite} {kx : KeyExchange} {record : ClientRecord}
  {keys : WriteKeySchedule} {key : List UInt8}

theorem forward_eq (w : WriteBuffer) :
    (CryptoBuffer.wrapWithPos w.buffer w.pos).forward =
      .ok { buf := w.buffer, offset := w.pos, len := 0 } := by
  have hmove := CryptoBuffer.moveTo_eq (b := CryptoBuffer.wrapWithPos w.buffer w.pos)
    (Nat.le_refl w.pos)
  unfold CryptoBuffer.forward
  rw [show (CryptoBuffer.wrapWithPos w.buffer w.pos).len = w.pos from rfl, hmove]
  simp only [CryptoBuffer.wrapWithPos, Nat.add_zero, Nat.sub_self]

theorem writePayload_of_le (hrecord : record.Encodable) (hkey : keys.binderKey = some key)
    (transcript : Transcript) (h : Filled header [] w)
    (hfit : headerSize + (record.payload suite kx).length ≤ w.buffer.length) :
    writePayload suite kx record keys transcript w =
      .ok (.ok (), transcript ++ record.digested (record.sent suite kx key transcript),
        { w with
          buffer := splice w.buffer headerSize (record.sent suite kx key transcript)
          pos := headerSize + (record.sent suite kx key transcript).length }) := by
  have hpos : w.pos = headerSize := h.pos
  have hlen : (record.sent suite kx key transcript).length =
      (record.payload suite kx).length := length_sent record key transcript
  have hroom : Region.HasRoom (record.payload suite kx).length
      { buf := w.buffer, offset := headerSize, len := 0 } := hfit
  have hencode := (payload_encodes suite kx hrecord).written _ hroom
  have htake : ((splice w.buffer headerSize (record.payload suite kx)).take
      (headerSize + (record.payload suite kx).length)).drop headerSize =
        record.payload suite kx := by
    rw [take_splice_filled hfit, List.drop_left']
    rw [List.length_take]
    omega
  have hslice : CryptoBuffer.asSlice (Region.append (record.payload suite kx)
      { buf := w.buffer, offset := headerSize, len := 0 }) =
        .ok (record.payload suite kx) := by
    unfold CryptoBuffer.asSlice Region.append
    simp only [Nat.zero_add, Nat.add_zero]
    rw [slice_of_le (Nat.le_add_right _ _) (by rw [length_splice hfit]; exact hfit), htake]
  have hover : splice (splice w.buffer headerSize (record.payload suite kx)) headerSize
      (record.sent suite kx key transcript) =
        splice w.buffer headerSize (record.sent suite kx key transcript) := by
    have hall : headerSize + (record.payload suite kx ++ []).length ≤ w.buffer.length := by
      rw [List.append_nil]
      exact hfit
    have hfront := Region.splice_splice_front hall hlen
    rw [List.append_nil, List.append_nil] at hfront
    exact hfront
  unfold writePayload
  rw [forward_eq, hpos, ok_bind, hencode, ok_bind]
  simp only [hslice, ok_bind, finishRecord_eq record hkey]
  unfold CryptoBuffer.rewind
  rw [CryptoBuffer.moveTo_eq (Nat.zero_le _), ok_bind]
  simp only [Region.append, hover, Nat.zero_add, Nat.sub_zero, hlen,
    Nat.add_comm headerSize]
  rfl

variable (kx) in
theorem writePayload_of_lt (hrecord : record.Encodable) (transcript : Transcript)
    (h : Filled header [] w)
    (hfit : w.buffer.length < headerSize + (record.payload suite kx).length) :
    exists e w', writePayload suite kx record keys transcript w =
      .ok (.error e, transcript, w') := by
  have hpos : w.pos = headerSize := h.pos
  have hle : headerSize + ([] : List UInt8).length ≤ w.buffer.length := h.length_le
  have hvalid : Region.Valid { buf := w.buffer, offset := headerSize, len := 0 } := hle
  rcases (payload_encodes suite kx hrecord).refused _ hvalid (Nat.not_le_of_lt hfit) with
    ⟨e, b, hrun, _, _⟩
  refine ⟨e, { w with buffer := b.buf }, ?_⟩
  unfold writePayload
  rw [forward_eq, hpos, ok_bind, hrun, ok_bind]
  rfl

variable (suite kx record keys) in
def sentRecord (key : List UInt8) (transcript : Transcript) : List UInt8 :=
  recordBytes (suite.aead keys.state.key keys.state.iv) keys.state.counter record.header
    (record.sent suite kx key transcript)

variable (kx) in
/-- From a free buffer a record is written just where the buffer holds all of it; the
buffer is free again behind it. -/
theorem writeRecord_eq (hrecord : record.Encodable) (hkey : keys.binderKey = some key)
    (transcript : Transcript) (h : w.Free) (hbuffer : tlsRecordOverhead < w.buffer.length) :
    ((sentRecord suite kx record keys key transcript).length ≤ w.buffer.length ->
      exists w', writeRecord suite kx record keys transcript w =
          .ok (.ok (sentRecord suite kx record keys key transcript),
            transcript ++ record.digested (record.sent suite kx key transcript), w') ∧
        w'.Free ∧ w'.buffer.length = w.buffer.length) ∧
    (¬ (sentRecord suite kx record keys key transcript).length ≤ w.buffer.length ->
      exists e transcript' w', writeRecord suite kx record keys transcript w =
        .ok (.error e, transcript', w')) := by
  rcases startRecord_filled h.pos hbuffer record.header with
    ⟨w₁, hstart, hfilled, hlen₁, hpendingLen₁, hpendingSent₁⟩
  have hunfold : writeRecord suite kx record keys transcript w = (do
      match <- writePayload suite kx record keys transcript w₁ with
      | (.error e, transcript, w) => pure (.error e, transcript, w)
      | (.ok _, transcript, w) =>
          match <- closeRecord (suite.aead keys.state.key keys.state.iv) keys.state.counter w with
          | (.error e, w) => pure (.error (.record e), transcript, w)
          | (.ok len, w) => do
              let bytes <- slice w.buffer 0 len
              pure (.ok bytes, transcript, w)) := by
    unfold writeRecord
    rw [h.current]
    simp only [Option.isSome_none, Bool.false_eq_true, if_false, hstart, ok_bind]
  have hsentLen : (record.sent suite kx key transcript).length =
      (record.payload suite kx).length := length_sent record key transcript
  by_cases hfit : headerSize + (record.payload suite kx).length ≤ w₁.buffer.length
  · have hpayload := writePayload_of_le hrecord hkey transcript hfilled hfit
    have hwrote := hfilled.wrote (record.sent suite kx key transcript)
    rcases closeRecord_filled (suite.aead keys.state.key keys.state.iv) keys.state.counter
      hwrote with ⟨hfits, hfull⟩
    have hsame : (splice w₁.buffer headerSize (record.sent suite kx key transcript)).length =
        w.buffer.length := by
      rw [length_splice (by rw [hsentLen]; exact hfit), hlen₁]
    simp only [hsame] at hfits hfull
    rw [hunfold, hpayload, ok_bind]
    constructor
    · intro hroom
      rcases hfits hroom with
        ⟨len, w', rest, hclose, hcurrent, hpos, hpendingLen, hpendingSent, hbytes, hsameLen, hlen⟩
      refine ⟨w', ?_, ⟨hpos, hcurrent, ?_, ?_⟩, hsameLen⟩
      · simp only [hclose, ok_bind]
        rw [slice_of_le (Nat.zero_le _) (by rw [hbytes, hlen, List.length_append]; omega),
          ok_bind, hbytes, hlen, List.take_left, List.drop_zero]
        rfl
      · rw [hpendingLen, hpendingLen₁, h.pendingLen]
      · rw [hpendingSent, hpendingSent₁, h.pendingSent]
    · intro hroom
      rcases hfull hroom with ⟨e, w', hclose⟩
      simp only [hclose, ok_bind]
      exact ⟨_, _, _, rfl⟩
  · have hshort : ¬ (sentRecord suite kx record keys key transcript).length ≤
        w.buffer.length := by
      have hrecordLen := length_recordBytes (suite.aead keys.state.key keys.state.iv)
        keys.state.counter record.header (record.sent suite kx key transcript)
      unfold sentRecord
      omega
    rcases writePayload_of_lt kx hrecord transcript hfilled (Nat.lt_of_not_le hfit) with
      ⟨e, w', hrun⟩
    rw [hunfold, hrun, ok_bind]
    exact ⟨fun hroom => absurd hroom hshort, fun _ => ⟨_, _, _, rfl⟩⟩

end Record

end WriteBuffer
end EmbeddedTls
end TWA
