import TWA.EmbeddedTls.Handshake
import TWA.EmbeddedTls.ServerFlight

/-!
# The steps of the handshake

What each function of the handshake does, said with the tree of secrets: from the
hello to the keys of the handshake, from the flight of the server to the transcript
that the server has finished with, and from there to the keys of the application.
-/

namespace TWA
namespace EmbeddedTls

open Foundation
open Foundation.Exec

namespace Opening

/-! ## What is sent and what is agreed on -/

section Terms

variable {sigma : Type} (suite : TlsCipherSuite) (kx : KeyExchange) (config : TlsConfig)
  (provider : CryptoProvider sigma)

def pskKey (config : TlsConfig) : Option (List UInt8) :=
  config.psk.map Psk.key

def binderKey : List UInt8 :=
  KeyTree.deriveSecret suite (KeyTree.earlySecret suite (pskKey config)) (ascii "ext binder") []

def helloRecord : ClientRecord :=
  .handshake (.clientHello (hello config provider)) false

def helloSent : List UInt8 :=
  (helloRecord config provider).sent suite kx (binderKey suite config) []

def clearRecord (header : ClientRecordHeader) (content : List UInt8) : List UInt8 :=
  header.encode ++ u16Bytes content.length ++ content

def helloWire : List UInt8 :=
  clearRecord (.handshake false) (helloSent suite kx config provider)

def handshakeSecret (dhe : List UInt8) : List UInt8 :=
  KeyTree.handshakeSecret suite (pskKey config) dhe

def clientTraffic (dhe : List UInt8) (transcript : Transcript) : KeyScheduleState :=
  KeyTree.trafficState suite (handshakeSecret suite config dhe) (ascii "c hs traffic") transcript

def serverTraffic (dhe : List UInt8) (transcript : Transcript) : KeyScheduleState :=
  KeyTree.trafficState suite (handshakeSecret suite config dhe) (ascii "s hs traffic") transcript

def serverSecret (dhe : List UInt8) (transcript : Transcript) : List UInt8 :=
  KeyTree.deriveSecret suite (handshakeSecret suite config dhe) (ascii "s hs traffic") transcript

def clientSecret (dhe : List UInt8) (transcript : Transcript) : List UInt8 :=
  KeyTree.deriveSecret suite (handshakeSecret suite config dhe) (ascii "c hs traffic") transcript

def clientAead (dhe : List UInt8) (transcript : Transcript) : Aead :=
  suite.aead (clientTraffic suite config dhe transcript).key
    (clientTraffic suite config dhe transcript).iv

def flightBytes (aead : Aead) (flight : List (ClientRecordHeader × List UInt8)) : List UInt8 :=
  flight.zipIdx.flatMap (fun r => WriteBuffer.recordBytes aead r.2 r.1.1 r.1.2)

/-- The transcript of the two hellos, and what the client has in common with the one who
sent the second. -/
def Answered (dhe : List UInt8) (hellos : Transcript) : Prop :=
  exists serverHello bytes, hellos = helloSent suite kx config provider ++ bytes ∧
    IsMessage suite (.serverHello serverHello) bytes ∧
    serverHello.calculateSharedSecret kx provider.secret = some dhe

/-- Somewhere behind the hellos the server has finished, with the code over all that was
before. -/
def HasFinished (secret : List UInt8) (hellos transcript : Transcript) : Prop :=
  exists before len rest, hellos <+: before ∧ len.length = 3 ∧
    transcript = before ++
      finishedBytes len (KeyTree.finishedMac suite secret (suite.hash before)) ++ rest

end Terms

theorem flightBytes_concat (aead : Aead) (flight : List (ClientRecordHeader × List UInt8))
    (r : ClientRecordHeader × List UInt8) :
    flightBytes aead (flight ++ [r]) =
      flightBytes aead flight ++ WriteBuffer.recordBytes aead flight.length r.1 r.2 := by
  unfold flightBytes
  rw [List.zipIdx_append, List.flatMap_append, Nat.zero_add]
  simp only [List.zipIdx_singleton, List.flatMap_singleton]

section Finished

variable {suite : TlsCipherSuite} {secret : List UInt8} {hellos transcript : Transcript}

theorem HasFinished.extend (h : HasFinished suite secret hellos transcript)
    (more : List UInt8) : HasFinished suite secret hellos (transcript ++ more) := by
  rcases h with ⟨before, len, rest, hstarts, hlen, rfl⟩
  exact ⟨before, len, rest ++ more, hstarts, hlen, List.append_assoc _ _ _⟩

end Finished

/-! ## Between two records -/

section Steps

variable {sigma : Type} {suite : TlsCipherSuite} {kx : KeyExchange} {config : TlsConfig}
  {provider : CryptoProvider sigma} {c : Opening sigma}

structure Rested (c : Opening sigma) : Prop where
  free : c.recordWriteBuf.Free
  room : tlsRecordOverhead < c.recordWriteBuf.buffer.length
  ready : c.recordReader.Ready

def counted (c : Opening sigma) : Opening sigma :=
  { c with keySchedule :=
    { c.keySchedule with clientState :=
      { c.keySchedule.clientState with state :=
        { c.keySchedule.clientState.state with
          counter := c.keySchedule.clientState.state.counter + 1 } } } }

def wrote (w : WriteBuffer) (more : List UInt8) (c : Opening sigma) : Opening sigma :=
  { c with
    recordWriteBuf := w
    keySchedule :=
      c.keySchedule.replaceTranscriptHash (c.keySchedule.serverState.transcript ++ more) }

def sentRecord (suite : TlsCipherSuite) (kx : KeyExchange) (config : TlsConfig)
    (record : ClientRecord) (c : Opening sigma) : List UInt8 :=
  WriteBuffer.sentRecord suite kx record c.keySchedule.clientState (binderKey suite config)
    c.keySchedule.serverState.transcript

variable (kx) in
/-- A record is written just where the buffer holds all of it. -/
theorem writeRecord_spec (h : c.Rested)
    (hkey : c.keySchedule.clientState.binderKey = some (binderKey suite config))
    {record : ClientRecord} (hrecord : record.Encodable) :
    ((sentRecord suite kx config record c).length ≤ c.recordWriteBuf.buffer.length ->
      exists w, writeRecord suite kx record c =
          .ok (.ok (sentRecord suite kx config record c),
            c.wrote w (record.digested (record.sent suite kx (binderKey suite config)
              c.keySchedule.serverState.transcript))) ∧
        w.Free ∧ w.buffer.length = c.recordWriteBuf.buffer.length) ∧
    (¬ (sentRecord suite kx config record c).length ≤ c.recordWriteBuf.buffer.length ->
      exists e c', writeRecord suite kx record c = .ok (.error e, c')) := by
  rcases WriteBuffer.writeRecord_eq kx hrecord hkey
    c.keySchedule.serverState.transcript h.free h.room with ⟨hfits, hfull⟩
  unfold writeRecord
  constructor
  · intro hroom
    rcases hfits hroom with ⟨w, hrun, hfree, hlen⟩
    rw [hrun, ok_bind]
    exact ⟨w, rfl, hfree, hlen⟩
  · intro hroom
    rcases hfull hroom with ⟨e, transcript, w, hrun⟩
    rw [hrun, ok_bind]
    exact ⟨e, _, rfl⟩

theorem Rested.wrote (h : c.Rested) {w : WriteBuffer} (hfree : w.Free)
    (hlen : w.buffer.length = c.recordWriteBuf.buffer.length) (more : List UInt8) :
    (c.wrote w more).Rested := by
  refine ⟨hfree, ?_, h.ready⟩
  show tlsRecordOverhead < w.buffer.length
  rw [hlen]
  exact h.room

/-! ## The hellos -/

structure Greeted (suite : TlsCipherSuite) (config : TlsConfig) (provider : CryptoProvider sigma)
    (transcript : Transcript) (c : Opening sigma) : Prop where
  shared : c.keySchedule.shared =
    KeyTree.sharedAt suite (KeyTree.earlySecret suite (pskKey config))
  key : c.keySchedule.clientState.binderKey = some (binderKey suite config)
  transcript : c.keySchedule.serverState.transcript = transcript
  handshake : c.handshake = { Handshake.new with secret := some provider.secret }

variable (kx config provider) in
theorem clientHello_spec (h : c.Rested) (hkeys : c.keySchedule = KeySchedule.new suite)
    (hhandshake : c.handshake = Handshake.new) :
    ((helloWire suite kx config provider).length ≤ c.recordWriteBuf.buffer.length ->
      exists c', clientHello suite kx config provider c =
          .ok (.ok (.serverHello, helloWire suite kx config provider), c') ∧
        c'.Rested ∧ c'.recordWriteBuf.buffer.length = c.recordWriteBuf.buffer.length ∧
        c'.keySchedule.clientState.state.counter = 0 ∧
        Greeted suite config provider (helloSent suite kx config provider) c' ∧
        c'.recordReader = c.recordReader ∧
        c'.verifier = c.verifier) ∧
    (¬ (helloWire suite kx config provider).length ≤ c.recordWriteBuf.buffer.length ->
      exists e c', clientHello suite kx config provider c = .ok (.error e, c')) := by
  have hshared : c.keySchedule.shared.secret = KeySchedule.zero suite := by
    rw [hkeys]
    rfl
  have hearly := KeyTree.initializeEarlySecret_eq hshared (pskKey config)
  generalize hnew : ({ c.keySchedule with
    shared := KeyTree.sharedAt suite (KeyTree.earlySecret suite (pskKey config))
    clientState := { c.keySchedule.clientState with
      binderKey := some (binderKey suite config) } } : KeySchedule) = keys
  have hsecret : c.keySchedule.initializeEarlySecret suite (config.psk.map Psk.key) = .ok keys := by
    rw [← hnew]
    exact hearly
  have hrested : ({ c with keySchedule := keys } : Opening sigma).Rested :=
    ⟨h.free, h.room, h.ready⟩
  have hkey : keys.clientState.binderKey = some (binderKey suite config) := by
    rw [← hnew]
  have hnone : keys.serverState.transcript = [] := by
    rw [← hnew, hkeys]
    rfl
  have htx : sentRecord suite kx config (helloRecord config provider)
      { c with keySchedule := keys } = helloWire suite kx config provider := by
    unfold sentRecord WriteBuffer.sentRecord
    simp only [hnone]
    rfl
  have hencodable : (helloRecord config provider).Encodable := True.intro
  rcases writeRecord_spec kx hrested hkey hencodable with ⟨hfits, hfull⟩
  rw [htx] at hfits hfull
  unfold clientHello
  rw [hsecret]
  simp only
  constructor
  · intro hroom
    rcases hfits hroom with ⟨w, hrun, hfree, hlen⟩
    unfold helloRecord at hrun
    rw [hrun, ok_bind]
    refine ⟨_, rfl, ⟨hfree, ?_, h.ready⟩, hlen, ?_, ⟨?_, hkey, ?_, ?_⟩, rfl, rfl⟩
    · show tlsRecordOverhead < w.buffer.length
      rw [hlen]
      exact h.room
    · show keys.clientState.state.counter = 0
      rw [← hnew, hkeys]
      rfl
    · show keys.shared = _
      rw [← hnew]
    · show keys.serverState.transcript ++ _ = _
      simp only [hnone]
      rfl
    · show ({ c.handshake with secret := some provider.secret } : Handshake) = _
      rw [hhandshake]
  · intro hroom
    rcases hfull hroom with ⟨e, c', hrun⟩
    unfold helloRecord at hrun
    rw [hrun, ok_bind]
    exact ⟨e, c', rfl⟩

/-- The keys of the handshake, the records that the client has sealed with them, how many
records of the server have been opened, and the transcript. -/
structure Keyed (suite : TlsCipherSuite) (config : TlsConfig) (dhe : List UInt8)
    (hellos : Transcript) (flight : List (ClientRecordHeader × List UInt8)) (opened : Nat)
    (transcript : Transcript) (c : Opening sigma) : Prop where
  shared : c.keySchedule.shared = KeyTree.sharedAt suite (handshakeSecret suite config dhe)
  client : c.keySchedule.clientState =
    { state := { clientTraffic suite config dhe hellos with counter := flight.length }
      binderKey := some (binderKey suite config) }
  server : c.keySchedule.serverState =
    { state := { serverTraffic suite config dhe hellos with counter := opened }
      transcript := transcript }

theorem Greeted.digested {transcript : Transcript}
    (h : Greeted suite config provider transcript c) (transcript' : Transcript) :
    Greeted suite config provider transcript'
      { c with keySchedule := c.keySchedule.replaceTranscriptHash transcript' } :=
  ⟨h.shared, h.key, rfl, h.handshake⟩

variable (kx) in
theorem processServerHello_answered {transcript : Transcript}
    (h : Greeted suite config provider transcript c) {serverHello : ServerHello}
    {dhe : List UInt8}
    (hshared : serverHello.calculateSharedSecret kx provider.secret = some dhe) :
    exists c', processServerHello suite kx (.handshake (.serverHello serverHello)) c =
        (.ok .serverVerify, c') ∧
      Keyed suite config dhe transcript [] 0 transcript c' ∧
      c'.handshake = Handshake.new ∧ c'.recordReader = c.recordReader ∧
      c'.recordWriteBuf = c.recordWriteBuf ∧ c'.verifier = c.verifier := by
  unfold processServerHello
  rw [h.handshake]
  simp only [hshared, KeyTree.initializeHandshakeSecret_eq h.shared dhe]
  refine ⟨_, rfl, ⟨rfl, ?_, ?_⟩, rfl, rfl, rfl, rfl⟩
  · simp only [h.key, h.transcript]
    rfl
  · simp only [h.transcript]
    rfl

variable (kx) in
/-- The client goes over to the keys of the handshake just when the server has sent a hello
with a share that it understands. -/
theorem processServerHello_spec {transcript : Transcript}
    (h : Greeted suite config provider transcript c) (record : ServerRecord) :
    (exists e c', processServerHello suite kx record c = (.error e, c') ∧
      forall level description, e ≠ .abortHandshake level description) ∨
    (exists serverHello dhe c', record = .handshake (.serverHello serverHello) ∧
      serverHello.calculateSharedSecret kx provider.secret = some dhe ∧
      processServerHello suite kx record c = (.ok .serverVerify, c') ∧
      Keyed suite config dhe transcript [] 0 transcript c' ∧
      c'.handshake = Handshake.new ∧ c'.recordReader = c.recordReader ∧
      c'.recordWriteBuf = c.recordWriteBuf ∧ c'.verifier = c.verifier) := by
  cases record with
  | changeCipherSpec =>
      left
      exact ⟨_, _, rfl, fun _ _ => nofun⟩
  | alert a =>
      left
      exact ⟨_, _, rfl, fun _ _ => nofun⟩
  | applicationData d =>
      left
      exact ⟨_, _, rfl, fun _ _ => nofun⟩
  | handshake message =>
      cases message with
      | serverHello serverHello =>
          cases hshared : serverHello.calculateSharedSecret kx provider.secret with
          | none =>
              left
              unfold processServerHello
              rw [h.handshake]
              simp only [hshared]
              exact ⟨_, _, rfl, fun _ _ => nofun⟩
          | some dhe =>
              right
              rcases processServerHello_answered kx h hshared with ⟨c', hrun, hrest⟩
              exact ⟨serverHello, dhe, c', rfl, hshared, hrun, hrest⟩
      | _ =>
          left
          exact ⟨_, _, rfl, fun _ _ => nofun⟩

/-! ## The flight of the server -/

inductive Verdict (suite : TlsCipherSuite) (secret : List UInt8) (hellos : Transcript)
    (transcript : Transcript) (s : Verifying sigma) : Prop where
  | notYet (hstate : s.state = .serverVerify)
  | requested (hstate : s.state = .clientCert)
      (hfinished : HasFinished suite secret hellos transcript)
      (hrequest : s.handshake.certificateRequest.isSome = true)
  | finished (hstate : s.state = .clientFinished) (trafficHash : Transcript)
      (htraffic : s.handshake.trafficHash = some trafficHash)
      (hfinished : HasFinished suite secret hellos trafficHash)

structure Verifies (suite : TlsCipherSuite) (config : TlsConfig) (dhe : List UInt8)
    (hellos : Transcript) (opened : Nat) (state : ReadKeySchedule × Verifying sigma) : Prop where
  keys : state.1.state = { serverTraffic suite config dhe hellos with counter := opened }
  behind : hellos <+: state.1.transcript
  verdict : Verdict suite (serverSecret suite config dhe hellos) hellos state.1.transcript state.2

variable {dhe : List UInt8} {hellos : Transcript} {opened : Nat}

theorem Verdict.extend {secret : List UInt8} {transcript : Transcript} {s : Verifying sigma}
    (h : Verdict suite secret hellos transcript s) (more : List UInt8) :
    Verdict suite secret hellos (transcript ++ more) s := by
  cases h with
  | notYet hstate => exact .notYet hstate
  | requested hstate hfinished hrequest =>
      exact .requested hstate (hfinished.extend more) hrequest
  | finished hstate trafficHash htraffic hfinished =>
      exact .finished hstate trafficHash htraffic hfinished

theorem Verdict.with_verifier {secret : List UInt8} {transcript : Transcript}
    {s : Verifying sigma} (h : Verdict suite secret hellos transcript s) (v : sigma) :
    Verdict suite secret hellos transcript { s with verifier := v } := by
  cases h with
  | notYet hstate => exact .notYet hstate
  | requested hstate hfinished hrequest => exact .requested hstate hfinished hrequest
  | finished hstate trafficHash htraffic hfinished =>
      exact .finished hstate trafficHash htraffic hfinished

theorem Verdict.with_request {secret : List UInt8} {transcript : Transcript}
    {s : Verifying sigma} (h : Verdict suite secret hellos transcript s)
    (context : List UInt8) :
    Verdict suite secret hellos transcript
      { s with handshake := { s.handshake with certificateRequest := some context } } := by
  cases h with
  | notYet hstate => exact .notYet hstate
  | requested hstate hfinished hrequest => exact .requested hstate hfinished rfl
  | finished hstate trafficHash htraffic hfinished =>
      exact .finished hstate trafficHash htraffic hfinished

theorem Verifies.digested {keys : ReadKeySchedule} {s : Verifying sigma}
    (h : Verifies suite config dhe hellos opened (keys, s)) (bytes : List UInt8) :
    Verifies suite config dhe hellos opened
      ({ keys with transcript := keys.transcript ++ bytes }, s) :=
  ⟨h.keys, h.behind.trans (List.prefix_append _ _), h.verdict.extend bytes⟩

theorem verifyServerFinished_spec {keys : ReadKeySchedule}
    (h : keys.state = { serverTraffic suite config dhe hellos with counter := opened })
    (verify hash : List UInt8) :
    keys.verifyServerFinished suite verify (some hash) =
      .ok (KeyTree.finishedMac suite (serverSecret suite config dhe hellos) hash == verify) := by
  refine KeyTree.verifyServerFinished_eq ?_ verify hash
  rw [h]
  rfl

/-- On every message of the server the callback ends; only a finished message with the right
code changes the state. -/
theorem verifyHandshake_keeps (suite : TlsCipherSuite) (config : TlsConfig)
    (provider : CryptoProvider sigma) (dhe : List UInt8) (hellos : Transcript) (opened : Nat) :
    Keeps suite (verifyHandshake suite provider)
      (Verifies suite config dhe hellos opened) := by
  intro message bytes keys s hmessage h
  have hmore := h.digested bytes
  cases message with
  | serverHello serverHello => exact ⟨_, _, rfl, nofun⟩
  | newSessionTicket => exact ⟨_, _, rfl, nofun⟩
  | encryptedExtensions => exact ⟨_, _, rfl, fun _ => hmore⟩
  | certificate cert =>
      unfold ServerHandshake.withHash verifyHandshake
      cases provider.verifier with
      | none => exact ⟨_, _, rfl, fun _ => hmore⟩
      | some verifier =>
          exact ⟨_, _, rfl, fun _ => ⟨hmore.keys, hmore.behind, hmore.verdict.with_verifier _⟩⟩
  | certificateVerify verify =>
      unfold ServerHandshake.withHash verifyHandshake
      cases provider.verifier with
      | none => exact ⟨_, _, rfl, fun _ => hmore⟩
      | some verifier =>
          exact ⟨_, _, rfl, fun _ => ⟨hmore.keys, hmore.behind, hmore.verdict.with_verifier _⟩⟩
  | certificateRequest request =>
      unfold ServerHandshake.withHash verifyHandshake
      simp only
      split
      · exact ⟨_, _, rfl, fun _ => ⟨hmore.keys, hmore.behind, hmore.verdict.with_request _⟩⟩
      · exact ⟨_, _, rfl, nofun⟩
  | finished f =>
      rcases hmessage.finished with ⟨len, hbytes, hlen, _, _⟩
      unfold ServerHandshake.withHash verifyHandshake
      simp only [verifyServerFinished_spec hmore.keys]
      cases hcode : KeyTree.finishedMac suite (serverSecret suite config dhe hellos)
          (suite.hash keys.transcript) == f.verify with
      | false => exact ⟨_, _, rfl, nofun⟩
      | true =>
          have hfinished : HasFinished suite (serverSecret suite config dhe hellos) hellos
              (keys.transcript ++ bytes) := by
            refine ⟨keys.transcript, len, [], h.behind, hlen, ?_⟩
            rw [eq_of_beq hcode, hbytes, List.append_nil]
          simp only
          split
          · rename_i hrequest
            exact ⟨_, _, rfl, fun _ => ⟨hmore.keys, hmore.behind,
              .requested rfl hfinished hrequest⟩⟩
          · exact ⟨_, _, rfl, fun _ => ⟨hmore.keys, hmore.behind,
              .finished rfl _ rfl hfinished⟩⟩

theorem verifyHandshake_keepsOther (suite : TlsCipherSuite) (config : TlsConfig)
    (provider : CryptoProvider sigma) (dhe : List UInt8) (hellos : Transcript) (opened : Nat) :
    KeepsOther (verifyHandshake suite provider) (Verifies suite config dhe hellos opened) := by
  intro record state hother h
  cases record with
  | handshake message => exact absurd rfl (hother message)
  | changeCipherSpec => exact ⟨_, _, rfl, fun _ => h⟩
  | alert a => exact ⟨_, _, rfl, nofun⟩
  | applicationData d => exact ⟨_, _, rfl, nofun⟩

/-! ## The flight of the client -/

theorem sent_of_encrypted {record : ClientRecord} (h : record.header.isEncrypted = true)
    (key : List UInt8) (transcript : Transcript) :
    record.sent suite kx key transcript = record.payload suite kx := by
  cases record with
  | alert a encrypted => rfl
  | handshake message encrypted =>
      have htrue : encrypted = true := h
      subst htrue
      cases message <;> rfl

structure Sealed (suite : TlsCipherSuite) (config : TlsConfig) (dhe : List UInt8)
    (hellos : Transcript) (flight : List (ClientRecordHeader × List UInt8)) (opened : Nat)
    (transcript : Transcript) (c c' : Opening sigma) : Prop where
  rested : c'.Rested
  size : c'.recordWriteBuf.buffer.length = c.recordWriteBuf.buffer.length
  keyed : Keyed suite config dhe hellos flight opened transcript c'.counted
  reader : c'.recordReader = c.recordReader
  verifier : c'.verifier = c.verifier

def nextSealed (suite : TlsCipherSuite) (config : TlsConfig) (dhe : List UInt8)
    (hellos : Transcript) (flight : List (ClientRecordHeader × List UInt8))
    (r : ClientRecordHeader × List UInt8) : List UInt8 :=
  WriteBuffer.recordBytes (clientAead suite config dhe hellos) flight.length r.1 r.2

variable {flight : List (ClientRecordHeader × List UInt8)} {transcript : Transcript}

variable (kx) in
theorem writeSealed_spec (h : c.Rested)
    (hkeyed : Keyed suite config dhe hellos flight opened transcript c) {record : ClientRecord}
    (hrecord : record.Encodable) (hencrypted : record.header.isEncrypted = true) :
    ((nextSealed suite config dhe hellos flight (record.header, record.payload suite kx)).length ≤
        c.recordWriteBuf.buffer.length ->
      exists c', writeRecord suite kx record c =
          .ok (.ok (nextSealed suite config dhe hellos flight
            (record.header, record.payload suite kx)), c') ∧
        Sealed suite config dhe hellos (flight ++ [(record.header, record.payload suite kx)])
          opened (transcript ++ record.digested (record.payload suite kx)) c c' ∧
        c'.handshake = c.handshake) ∧
    (¬ (nextSealed suite config dhe hellos flight
        (record.header, record.payload suite kx)).length ≤ c.recordWriteBuf.buffer.length ->
      exists e c', writeRecord suite kx record c = .ok (.error e, c')) := by
  have hclient := hkeyed.client
  have hserver := hkeyed.server
  have hkey : c.keySchedule.clientState.binderKey = some (binderKey suite config) := by
    rw [hclient]
  have htx : sentRecord suite kx config record c =
      nextSealed suite config dhe hellos flight (record.header, record.payload suite kx) := by
    unfold sentRecord WriteBuffer.sentRecord
    rw [hclient, sent_of_encrypted hencrypted]
    rfl
  rcases writeRecord_spec kx h hkey hrecord with ⟨hfits, hfull⟩
  rw [htx, sent_of_encrypted hencrypted] at hfits
  rw [htx] at hfull
  refine ⟨?_, hfull⟩
  intro hroom
  rcases hfits hroom with ⟨w, hrun, hfree, hlen⟩
  refine ⟨_, hrun, ⟨h.wrote hfree hlen _, hlen, ⟨hkeyed.shared, ?_, ?_⟩, rfl, rfl⟩, rfl⟩
  · show ({ c.keySchedule.clientState with state := { c.keySchedule.clientState.state with
      counter := c.keySchedule.clientState.state.counter + 1 } } : WriteKeySchedule) = _
    rw [hclient, List.length_append]
    rfl
  · show ({ c.keySchedule.serverState with transcript := _ } : ReadKeySchedule) = _
    rw [hserver]

/-- What the code relies on in the provider: a certificate can be encoded, and signatures
fit into a message. -/
structure Proper (provider : CryptoProvider sigma) : Prop where
  x509 : forall cert, provider.clientCert = some cert -> cert.IsX509
  short : forall signer msg, provider.signer = .ok signer ->
    (signer.sign msg).length ≤ signatureSize

def certificateFor (provider : CryptoProvider sigma) (requestContext : List UInt8) :
    CertificateRef :=
  { rawEntries := []
    requestContext := requestContext
    entries := provider.clientCert.toList }

def stateAfterCert (provider : CryptoProvider sigma) : State :=
  if provider.clientCert.isSome then .clientCertVerify else .clientFinished

def certContent (suite : TlsCipherSuite) (kx : KeyExchange) (provider : CryptoProvider sigma)
    (requestContext : List UInt8) : List UInt8 :=
  (ClientHandshake.clientCert (certificateFor provider requestContext)).bytes suite kx

variable (kx) in
theorem clientCert_spec (hproper : Proper provider) (h : c.Rested)
    (hkeyed : Keyed suite config dhe hellos flight opened transcript c)
    {requestContext : List UInt8}
    (hrequest : c.handshake.certificateRequest = some requestContext) :
    ((nextSealed suite config dhe hellos flight
        (.handshake true, certContent suite kx provider requestContext)).length ≤
        c.recordWriteBuf.buffer.length ->
      exists c', clientCert suite kx provider c =
          .ok (.ok (stateAfterCert provider, nextSealed suite config dhe hellos flight
            (.handshake true, certContent suite kx provider requestContext)), c') ∧
        Sealed suite config dhe hellos
          (flight ++ [(.handshake true, certContent suite kx provider requestContext)]) opened
          (transcript ++ certContent suite kx provider requestContext) c c' ∧
        c'.handshake = { c.handshake with trafficHash := some transcript }) ∧
    (¬ (nextSealed suite config dhe hellos flight
        (.handshake true, certContent suite kx provider requestContext)).length ≤
        c.recordWriteBuf.buffer.length ->
      exists e c', clientCert suite kx provider c = .ok (.error e, c')) := by
  generalize hc₁ : ({ c with handshake := { c.handshake with
    trafficHash := some c.keySchedule.serverState.transcript } } : Opening sigma) = c₁
  have htranscript : c.keySchedule.serverState.transcript = transcript := by
    rw [hkeyed.server]
  have hrested : c₁.Rested := by
    rw [← hc₁]
    exact ⟨h.free, h.room, h.ready⟩
  have hkeyed₁ : Keyed suite config dhe hellos flight opened transcript c₁ := by
    rw [← hc₁]
    exact ⟨hkeyed.shared, hkeyed.client, hkeyed.server⟩
  have hencodable : (ClientRecord.handshake (.clientCert
      (certificateFor provider requestContext)) true).Encodable := by
    intro entry hentry
    have hsome := Option.mem_toList.mp hentry
    exact hproper.x509 entry hsome
  have hbuffer : c₁.recordWriteBuf = c.recordWriteBuf := by
    rw [← hc₁]
  have hrun : clientCert suite kx provider c =
      writeRecord suite kx (.handshake (.clientCert
        (certificateFor provider requestContext)) true) c₁ >>= fun written =>
          pure (written.1.map (fun tx => (stateAfterCert provider, tx)), written.2) := by
    rw [← hc₁]
    unfold clientCert certificateFor stateAfterCert
    simp only [hrequest]
    cases provider.clientCert with
    | none => rfl
    | some cert => rfl
  rcases writeSealed_spec kx hrested hkeyed₁ hencodable rfl with ⟨hfits, hfull⟩
  rw [hrun]
  rw [hbuffer] at hfits hfull
  constructor
  · intro hroom
    rcases hfits hroom with ⟨c', hwrite, hsealed, hhandshake⟩
    rw [hwrite, ok_bind]
    refine ⟨c', rfl, ⟨hsealed.rested, ?_, hsealed.keyed, ?_, ?_⟩, ?_⟩
    · rw [hsealed.size, hbuffer]
    · rw [hsealed.reader, ← hc₁]
    · rw [hsealed.verifier, ← hc₁]
    · rw [hhandshake, ← hc₁, htranscript]
  · intro hroom
    rcases hfull hroom with ⟨e, c', hwrite⟩
    rw [hwrite, ok_bind]
    exact ⟨e, c', rfl⟩

theorem signedMessage_eq (suite : TlsCipherSuite) (transcript : Transcript) :
    signedMessage (suite.hash transcript) =
      .ok (List.replicate 64 0x20 ++ contextString ++ suite.hash transcript) := by
  have hlen := suite.length_hash transcript
  have hle := suite.hashLen_le
  have hcontext : contextString.length = 34 := rfl
  unfold signedMessage
  simp only
  rw [if_pos]
  rw [List.length_append, List.length_append, List.length_replicate, hlen, hcontext]
  omega

inductive Signed (suite : TlsCipherSuite) (provider : CryptoProvider sigma)
    (transcript : Transcript) : ClientRecord -> Except ProtocolError State -> Prop where
  | verify (signer : Signer) (h : provider.signer = .ok signer) (verify : CertificateVerify)
      (hscheme : verify.signatureScheme = signer.scheme)
      (hsignature : verify.signature = signer.sign
        (List.replicate 64 0x20 ++ contextString ++ suite.hash transcript)) :
      Signed suite provider transcript (.handshake (.clientCertVerify verify) true)
        (.ok .clientFinished)
  | alert (e : ProtocolError) (h : provider.signer = .error e) :
      Signed suite provider transcript
        (.alert { level := .warning, description := .closeNotify } true) (.error e)

variable (kx) in
theorem clientCertVerify_spec (hproper : Proper provider) (h : c.Rested)
    (hkeyed : Keyed suite config dhe hellos flight opened transcript c) :
    exists record result, Signed suite provider transcript record result ∧
      ((nextSealed suite config dhe hellos flight
          (record.header, record.payload suite kx)).length ≤ c.recordWriteBuf.buffer.length ->
        exists c', clientCertVerify suite kx provider c =
            .ok (.ok (result, nextSealed suite config dhe hellos flight
              (record.header, record.payload suite kx)), c') ∧
          Sealed suite config dhe hellos (flight ++ [(record.header, record.payload suite kx)])
            opened (transcript ++ record.digested (record.payload suite kx)) c c' ∧
          c'.handshake = c.handshake) ∧
      (¬ (nextSealed suite config dhe hellos flight
          (record.header, record.payload suite kx)).length ≤ c.recordWriteBuf.buffer.length ->
        exists e c', clientCertVerify suite kx provider c = .ok (.error e, c')) := by
  have htranscript : c.keySchedule.serverState.transcript = transcript := by
    rw [hkeyed.server]
  have hrun : exists record result, Signed suite provider transcript record result ∧
      record.Encodable ∧ record.header.isEncrypted = true ∧
      clientCertVerify suite kx provider c =
        writeRecord suite kx record c >>= fun written =>
          pure (written.1.map (fun tx => (result, tx)), written.2) := by
    unfold clientCertVerify
    cases hsigner : provider.signer with
    | error e => exact ⟨_, _, .alert e hsigner, True.intro, rfl, rfl⟩
    | ok signer =>
        have hshort := hproper.short signer
          (List.replicate 64 0x20 ++ contextString ++ suite.hash transcript) hsigner
        simp only [htranscript, signedMessage_eq, dif_pos hshort]
        exact ⟨_, _, .verify signer hsigner _ rfl rfl, True.intro, rfl, rfl⟩
  rcases hrun with ⟨record, result, hsigned, hencodable, hencrypted, hrun⟩
  rcases writeSealed_spec kx h hkeyed hencodable hencrypted with ⟨hfits, hfull⟩
  refine ⟨record, result, hsigned, ?_, ?_⟩
  · intro hroom
    rcases hfits hroom with ⟨c', hwrite, hsealed, hhandshake⟩
    rw [hrun, hwrite, ok_bind]
    exact ⟨c', rfl, hsealed, hhandshake⟩
  · intro hroom
    rcases hfull hroom with ⟨e, c', hwrite⟩
    rw [hrun, hwrite, ok_bind]
    exact ⟨e, c', rfl⟩

def finishedContent (suite : TlsCipherSuite) (kx : KeyExchange) (config : TlsConfig)
    (dhe : List UInt8) (hellos transcript : Transcript) : List UInt8 :=
  (ClientHandshake.finished
    { verify := KeyTree.finishedMac suite (clientSecret suite config dhe hellos)
        (suite.hash transcript)
      hash := none }).bytes suite kx

variable (kx) in
theorem clientFinished_spec (h : c.Rested)
    (hkeyed : Keyed suite config dhe hellos flight opened transcript c) :
    ((nextSealed suite config dhe hellos flight
        (.handshake true, finishedContent suite kx config dhe hellos transcript)).length ≤
        c.recordWriteBuf.buffer.length ->
      exists c', clientFinished suite kx c =
          .ok (.ok (nextSealed suite config dhe hellos flight
            (.handshake true, finishedContent suite kx config dhe hellos transcript)), c') ∧
        Sealed suite config dhe hellos
          (flight ++ [(.handshake true, finishedContent suite kx config dhe hellos transcript)])
          opened (transcript ++ finishedContent suite kx config dhe hellos transcript) c c' ∧
        c'.handshake = c.handshake) ∧
    (¬ (nextSealed suite config dhe hellos flight
        (.handshake true, finishedContent suite kx config dhe hellos transcript)).length ≤
        c.recordWriteBuf.buffer.length ->
      exists e c', clientFinished suite kx c = .ok (.error e, c')) := by
  have htranscript : c.keySchedule.serverState.transcript = transcript := by
    rw [hkeyed.server]
  have hsecret : c.keySchedule.clientState.state.trafficSecret =
      some (clientSecret suite config dhe hellos) := by
    rw [hkeyed.client]
    rfl
  have hverify : c.keySchedule.createClientFinished suite = .ok _ :=
    KeyTree.createClientFinished_eq hsecret
  rw [htranscript] at hverify
  have hencodable : (ClientRecord.handshake (.finished
      { verify := KeyTree.finishedMac suite (clientSecret suite config dhe hellos)
          (suite.hash transcript)
        hash := none }) true).Encodable := True.intro
  unfold clientFinished
  rw [hverify]
  exact writeSealed_spec kx h hkeyed hencodable rfl

/-! ## The keys of the application -/

def masterSecret (suite : TlsCipherSuite) (config : TlsConfig) (dhe : List UInt8) :
    List UInt8 :=
  KeyTree.masterSecret suite (pskKey config) dhe

structure Agreed (suite : TlsCipherSuite) (config : TlsConfig) (dhe : List UInt8)
    (trafficHash : Transcript) (c : Opening sigma) : Prop where
  client : c.keySchedule.clientState.state =
    KeyTree.trafficState suite (masterSecret suite config dhe) (ascii "c ap traffic") trafficHash
  server : c.keySchedule.serverState =
    { state := KeyTree.trafficState suite (masterSecret suite config dhe) (ascii "s ap traffic")
        trafficHash
      transcript := trafficHash }

theorem clientFinishedFinalize_spec
    (hshared : c.keySchedule.shared = KeyTree.sharedAt suite (handshakeSecret suite config dhe))
    {trafficHash : Transcript} (htraffic : c.handshake.trafficHash = some trafficHash) :
    exists c', clientFinishedFinalize suite c = (.ok .applicationData, c') ∧
      Agreed suite config dhe trafficHash c' ∧ c'.recordReader = c.recordReader ∧
      c'.recordWriteBuf = c.recordWriteBuf := by
  have hmaster := KeyTree.initializeMasterSecret_eq
    (k := c.keySchedule.replaceTranscriptHash trafficHash) hshared
  unfold clientFinishedFinalize
  rw [htraffic]
  simp only [hmaster]
  exact ⟨_, rfl, ⟨rfl, rfl⟩, rfl, rfl⟩

end Steps
end Opening
end EmbeddedTls
end TWA
