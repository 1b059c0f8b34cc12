import TWA.EmbeddedTls.Authentication
import TWA.EmbeddedTls.HonestServer

/-!
# The handshake with an honest server

With a server that answers, the connection is opened: whatever the sizes in which
bytes arrive and are taken, the call never fails, always waits for something that
can happen, and ends after a bounded number of events.  Then both sides have the
same keys, and nothing behind the flight of the server has been read.
-/

namespace TWA
namespace EmbeddedTls

open Foundation
open Foundation.Exec

namespace Opening

/-! ## What the client answers -/

section Answers

variable {sigma : Type} (suite : TlsCipherSuite) (kx : KeyExchange) (config : TlsConfig)
  (provider : CryptoProvider sigma) (dhe : List UInt8) (hellos : Transcript)

def signedText (transcript : Transcript) : List UInt8 :=
  List.replicate 64 0x20 ++ contextString ++ suite.hash transcript

def verifyContent (transcript : Transcript) : List UInt8 :=
  match provider.signer with
  | .error _ => []
  | .ok signer =>
      if h : (signer.sign (signedText suite transcript)).length ≤ signatureSize then
        (ClientHandshake.clientCertVerify
          { signatureScheme := signer.scheme
            signature := signer.sign (signedText suite transcript)
            signature_le := h }).bytes suite kx
      else
        []

def finishFlight (transcript : Transcript) : List (ClientRecordHeader × List UInt8) :=
  [(.handshake true, finishedContent suite kx config dhe hellos transcript)]

def verifyFlight (transcript : Transcript) : List (ClientRecordHeader × List UInt8) :=
  (.handshake true, verifyContent suite kx provider transcript) ::
    finishFlight suite kx config dhe hellos
      (transcript ++ verifyContent suite kx provider transcript)

def certFlight (requestContext : List UInt8) (transcript : Transcript) :
    List (ClientRecordHeader × List UInt8) :=
  (.handshake true, certContent suite kx provider requestContext) ::
    if provider.clientCert.isSome then
      verifyFlight suite kx config provider dhe hellos
        (transcript ++ certContent suite kx provider requestContext)
    else
      finishFlight suite kx config dhe hellos
        (transcript ++ certContent suite kx provider requestContext)

def clientFlight (request : Option (List UInt8)) (transcript : Transcript) :
    List (ClientRecordHeader × List UInt8) :=
  match request with
  | none => finishFlight suite kx config dhe hellos transcript
  | some requestContext => certFlight suite kx config provider dhe hellos requestContext transcript

def CanSign : Prop :=
  provider.clientCert.isSome = true -> exists signer, provider.signer = .ok signer

end Answers

section Lengths

variable {sigma : Type} {suite : TlsCipherSuite} {kx : KeyExchange} {config : TlsConfig}
  {provider : CryptoProvider sigma} {dhe : List UInt8} {hellos : Transcript}

theorem length_nextSealed (flight : List (ClientRecordHeader × List UInt8))
    (content : List UInt8) :
    (nextSealed suite config dhe hellos flight (.handshake true, content)).length =
      headerSize + content.length + (1 + suite.tagLen) := by
  have hlen := WriteBuffer.length_recordBytes (clientAead suite config dhe hellos) flight.length
    (.handshake true) content
  have hencrypted : (ClientRecordHeader.handshake true).isEncrypted = true := rfl
  rw [if_pos hencrypted] at hlen
  exact hlen

theorem nextSealed_ne_nil (flight : List (ClientRecordHeader × List UInt8))
    (content : List UInt8) :
    nextSealed suite config dhe hellos flight (.handshake true, content) ≠ [] := by
  intro hnil
  have hlen := @length_nextSealed suite config dhe hellos flight content
  rw [hnil, List.length_nil] at hlen
  unfold headerSize at hlen
  omega

variable (kx) in
theorem Signed.content {transcript : Transcript} {record : ClientRecord}
    {result : Except ProtocolError State} (h : Signed suite provider transcript record result)
    {signer : Signer} (hsigner : provider.signer = .ok signer) :
    result = .ok .clientFinished ∧ record.header = .handshake true ∧
      record.payload suite kx = verifyContent suite kx provider transcript ∧
      forall bytes, record.digested bytes = bytes := by
  cases h with
  | alert e herror =>
      rw [hsigner] at herror
      cases herror
  | verify signer' hsigner' verify hscheme hsignature =>
      rw [hsigner] at hsigner'
      cases hsigner'
      refine ⟨rfl, rfl, ?_, fun _ => rfl⟩
      have hshort : (signer.sign (signedText suite transcript)).length ≤ signatureSize := by
        have hle := verify.signature_le
        rw [hsignature] at hle
        exact hle
      have hverify : verify =
          { signatureScheme := signer.scheme
            signature := signer.sign (signedText suite transcript)
            signature_le := hshort } := by
        cases verify
        cases hscheme
        cases hsignature
        rfl
      unfold verifyContent
      rw [hsigner]
      simp only [dif_pos hshort, ← hverify]
      rfl

end Lengths

/-! ## Where the connection stands -/

section Course

variable {sigma : Type} {suite : TlsCipherSuite} {kx : KeyExchange} {config : TlsConfig}
  {provider : CryptoProvider sigma} {verifier : sigma}
  (server : HonestServer suite kx config provider verifier) (readSize writeSize : Nat)
  (more : List UInt8)

def answer : List (ClientRecordHeader × List UInt8) :=
  clientFlight suite kx config provider server.dhe server.hellos server.noted.request
    server.transcript

def aead : Aead :=
  clientAead suite config server.dhe server.hellos

def clientWire : List UInt8 :=
  helloWire suite kx config provider ++ flightBytes (aead server) (answer server)

/-- The buffers hold every record of the handshake. -/
structure Fits : Prop where
  records : forall rec, rec ∈ server.records -> rec.body.length ≤ readSize
  hello : (helloWire suite kx config provider).length ≤ writeSize
  answer : forall r, r ∈ answer server ->
    headerSize + r.2.length + (1 + suite.tagLen) ≤ writeSize

structure Sized (c : Opening sigma) : Prop where
  free : c.recordWriteBuf.Free
  room : tlsRecordOverhead < c.recordWriteBuf.buffer.length
  write : c.recordWriteBuf.buffer.length = writeSize
  read : c.recordReader.buf.length = readSize

structure Watching (opened : Nat) (transcript : Transcript) (n : Noted sigma)
    (c : Opening sigma) : Prop where
  keyed : Keyed suite config server.dhe server.hellos [] opened transcript c
  handshake : c.handshake = n.handshake
  verifier : c.verifier = n.verifier

structure Pending (opened : Nat) (transcript : Transcript) (n : Noted sigma)
    (items : List (FlightItem suite)) : Prop where
  flies : Flies suite provider (serverSecret suite config server.dhe server.hellos) transcript n
    items server.transcript server.noted
  few : opened + items.length < UInt64.size - 1
  fit : forall rec, rec ∈ server.recordsFrom opened items -> rec.body.length ≤ readSize

structure Answering (left : Transcript -> List (ClientRecordHeader × List UInt8))
    (wire : List UInt8) (c : Opening sigma) : Prop where
  keyed : exists flight opened transcript,
    Keyed suite config server.dhe server.hellos flight opened transcript c ∧
      flight ++ left transcript = answer server ∧
      wire = helloWire suite kx config provider ++ flightBytes (aead server) flight
  traffic : c.handshake.trafficHash = some server.transcript

/-- Where the client stands when it enters a state. -/
inductive At (wire stream : List UInt8) (c : Opening sigma) : State -> Prop where
  | clientHello (hkeys : c.keySchedule = KeySchedule.new suite)
      (hhandshake : c.handshake = Handshake.new) (hverifier : c.verifier = verifier)
      (hwire : wire = []) (hstream : stream = wireOf server.records ++ more) :
      At wire stream c .clientHello
  | serverHello
      (h : Greeted suite config provider (helloSent suite kx config provider) c)
      (hverifier : c.verifier = verifier) (hwire : wire = helloWire suite kx config provider)
      (hstream : stream = wireOf server.records ++ more) : At wire stream c .serverHello
  | serverVerify {opened : Nat} {transcript : Transcript} {n : Noted sigma}
      {items : List (FlightItem suite)} (h : Watching server opened transcript n c)
      (hpending : Pending server readSize opened transcript n items)
      (hwire : wire = helloWire suite kx config provider)
      (hstream : stream = wireOf (server.recordsFrom opened items) ++ more) :
      At wire stream c .serverVerify
  | clientCert {requestContext : List UInt8} {opened : Nat}
      (hrequest : server.noted.request = some requestContext)
      (h : Keyed suite config server.dhe server.hellos [] opened server.transcript c)
      (hhandshake : c.handshake = server.noted.handshake)
      (hwire : wire = helloWire suite kx config provider) (hstream : stream = more) :
      At wire stream c .clientCert
  | clientCertVerify (hcert : provider.clientCert.isSome = true)
      (h : Answering server (verifyFlight suite kx config provider server.dhe server.hellos) wire c)
      (hstream : stream = more) : At wire stream c .clientCertVerify
  | clientFinished
      (h : Answering server (finishFlight suite kx config server.dhe server.hellos) wire c)
      (hstream : stream = more) : At wire stream c .clientFinished
  | applicationData (h : Agreed suite config server.dhe server.transcript c)
      (hwire : wire = clientWire server) (hstream : stream = more) :
      At wire stream c .applicationData

def Expects (wire stream : List UInt8) (c : Opening sigma) : After -> Prop
  | .goesOn (.ok state) => At server readSize more wire stream c state
  | .goesOn (.error _) => False
  | .finalizes => Answering server (fun _ => []) wire c ∧ stream = more

structure Facing (rec : Record) (tail stream : List UInt8) (a : RecordReader.Await)
    (r : RecordReader) : Prop where
  reads : exists part, RecordReader.Holds rec part r ∧ part ++ stream = rec.wire ++ tail
  agrees : RecordReader.AwaitAgrees rec r a
  sound : r.Sound
  await : RecordReader.AwaitSound r a
  fits : rec.body.length ≤ r.buf.length

/-- Where a stretch of the call leads; none fails. -/
inductive Goes (wire stream : List UInt8) : Progress × Opening sigma -> Prop where
  | readingHello (a : RecordReader.Await) (c : Opening sigma)
      (hsized : Sized readSize writeSize c)
      (h : Greeted suite config provider (helloSent suite kx config provider) c)
      (hverifier : c.verifier = verifier) (hwire : wire = helloWire suite kx config provider)
      (hfacing : Facing server.helloRecord (wireOf (server.recordsFrom 0 server.items) ++ more)
        stream a c.recordReader) : Goes wire stream (.awaits (.reading .serverHello a), c)
  | readingFlight (a : RecordReader.Await) (c : Opening sigma)
      (hsized : Sized readSize writeSize c) {opened : Nat} {transcript : Transcript}
      {n : Noted sigma} {items : List (FlightItem suite)} {rec : Record} {records : List Record}
      (h : Watching server opened transcript n c)
      (hpending : Pending server readSize opened transcript n items)
      (hrecords : server.recordsFrom opened items = rec :: records)
      (hwire : wire = helloWire suite kx config provider)
      (hfacing : Facing rec (wireOf records ++ more) stream a c.recordReader) :
      Goes wire stream (.awaits (.reading .serverVerify a), c)
  | sending (rest : List UInt8) (after : After) (c : Opening sigma)
      (hsized : Sized readSize writeSize c) (hready : c.recordReader.Ready) (hrest : rest ≠ [])
      (hcount : c.keySchedule.clientState.state.counter + 1 < UInt64.size)
      (hexpects : Expects server readSize more (wire ++ rest) stream c.counted after) :
      Goes wire stream (.awaits (.sending rest after), c)
  | flushing (after : After) (c : Opening sigma) (hsized : Sized readSize writeSize c)
      (hready : c.recordReader.Ready)
      (hexpects : Expects server readSize more wire stream c after) :
      Goes wire stream (.awaits (.flushing after), c)
  | opened (c : Opening sigma) (hopened : c.opened = true) (hsized : Sized readSize writeSize c)
      (hready : c.recordReader.Ready)
      (h : Agreed suite config server.dhe server.transcript c)
      (hwire : wire = clientWire server) (hstream : stream = more) :
      Goes wire stream (.returned (.ok ()), c)

/-! ## Between two waits -/

variable {server readSize writeSize more} {wire stream : List UInt8} {c : Opening sigma}

theorem Sized.counted (h : Sized readSize writeSize c) : Sized readSize writeSize c.counted :=
  ⟨h.free, h.room, h.write, h.read⟩

theorem Sized.rested (h : Sized readSize writeSize c) (hready : c.recordReader.Ready) :
    c.Rested :=
  ⟨h.free, h.room, hready⟩

theorem Sized.sealed (h : Sized readSize writeSize c) {dhe : List UInt8} {hellos : Transcript}
    {flight : List (ClientRecordHeader × List UInt8)} {opened : Nat} {transcript : Transcript}
    {c' : Opening sigma} (hsealed : Sealed suite config dhe hellos flight opened transcript c c') :
    Sized readSize writeSize c' := by
  refine ⟨hsealed.rested.free, hsealed.rested.room, hsealed.size.trans h.write, ?_⟩
  rw [hsealed.reader]
  exact h.read

def flushes : Progress × Opening sigma -> Nat
  | (.awaits (.flushing _), _) => 1
  | _ => 0

theorem respond_goes {tx : List UInt8} {after : After} (hsized : Sized readSize writeSize c)
    (hready : c.recordReader.Ready)
    (hcount : c.keySchedule.clientState.state.counter + 1 < UInt64.size)
    (hexpects : Expects server readSize more (wire ++ tx) stream c.counted after) :
    exists result, respond tx after c = .ok result ∧
      Goes server readSize writeSize more wire stream result ∧
      (tx ≠ [] -> flushes result = 0) := by
  unfold respond
  split
  · rename_i hnil
    rw [hnil, List.append_nil] at hexpects
    rcases incrementCounter_cases c.keySchedule.clientState.state with ⟨hnext, _⟩ | ⟨_, hfull⟩
    · rw [hnext, ok_bind]
      exact ⟨_, rfl, .flushing after _ hsized.counted hready hexpects,
        fun hsome => absurd hnil hsome⟩
    · exact absurd hcount (Nat.not_lt_of_le hfull)
  · rename_i hrest
    exact ⟨_, rfl, .sending tx after c hsized hready hrest hcount hexpects, fun _ => rfl⟩

theorem respond_some {tx : List UInt8} {after : After} (hsized : Sized readSize writeSize c)
    (hready : c.recordReader.Ready)
    (hcount : c.keySchedule.clientState.state.counter + 1 < UInt64.size)
    (hexpects : Expects server readSize more (wire ++ tx) stream c.counted after)
    (hsome : tx ≠ []) :
    exists result, respond tx after c = .ok result ∧
      Goes server readSize writeSize more wire stream result ∧ flushes result = 0 := by
  rcases respond_goes hsized hready hcount hexpects with ⟨result, hrun, hgoes, hquiet⟩
  exact ⟨result, hrun, hgoes, hquiet hsome⟩

theorem answering_next {flight : List (ClientRecordHeader × List UInt8)}
    {r : ClientRecordHeader × List UInt8} {opened : Nat} {transcript : Transcript}
    {left : Transcript -> List (ClientRecordHeader × List UInt8)} {c' : Opening sigma}
    (hsealed : Sealed suite config server.dhe server.hellos (flight ++ [r]) opened transcript c c')
    (hflight : flight ++ r :: left transcript = answer server)
    (hwire : wire = helloWire suite kx config provider ++ flightBytes (aead server) flight)
    (htraffic : c'.handshake.trafficHash = some server.transcript) :
    Answering server left
      (wire ++ nextSealed suite config server.dhe server.hellos flight r) c'.counted := by
  refine ⟨⟨flight ++ [r], opened, transcript, hsealed.keyed, ?_, ?_⟩, htraffic⟩
  · rw [← hflight, List.append_assoc]
    rfl
  · rw [hwire, flightBytes_concat, List.append_assoc]
    rfl

theorem length_answer_le : (answer server).length ≤ 3 := by
  unfold answer clientFlight
  split
  · exact Nat.le_add_left 1 2
  · unfold certFlight verifyFlight finishFlight
    split
    · exact Nat.le_refl 3
    · exact Nat.le_succ 2

theorem answer_room (hfits : Fits server readSize writeSize)
    {flight rest : List (ClientRecordHeader × List UInt8)} {content : List UInt8}
    (hflight : flight ++ (.handshake true, content) :: rest = answer server) :
    (nextSealed suite config server.dhe server.hellos flight
        (.handshake true, content)).length ≤ writeSize ∧
      flight.length + 1 ≤ 3 := by
  constructor
  · rw [length_nextSealed]
    have hmem : (ClientRecordHeader.handshake true, content) ∈ answer server := by
      rw [← hflight]
      exact List.mem_append_right _ List.mem_cons_self
    exact hfits.answer _ hmem
  · have hlen := congrArg List.length hflight
    have hshort := @length_answer_le _ _ _ _ _ _ server
    rw [List.length_append, List.length_cons] at hlen
    omega

theorem Sealed.countable {dhe : List UInt8} {hellos : Transcript}
    {flight : List (ClientRecordHeader × List UInt8)} {r : ClientRecordHeader × List UInt8}
    {opened : Nat} {transcript : Transcript} {c' : Opening sigma}
    (h : Sealed suite config dhe hellos (flight ++ [r]) opened transcript c c')
    (hshort : flight.length + 1 ≤ 3) :
    c'.keySchedule.clientState.state.counter + 1 < UInt64.size := by
  rw [h.count, List.length_append, List.length_singleton]
  exact Nat.lt_of_le_of_lt hshort (by decide)

theorem facing_of_ready {r : RecordReader} (hready : r.Ready) {rec : Record}
    {tail : List UInt8} (hstream : stream = rec.wire ++ tail)
    (hfits : rec.body.length ≤ r.buf.length) :
    Facing rec tail stream .header r := by
  have hhave : r.hdrHave < RecordHeader.len := by
    rw [hready.hdrHave]
    decide
  have hpart : [] = r.hdr.take r.hdrHave := by
    rw [hready.hdrHave, List.take_zero]
  refine ⟨⟨[], ?_, hstream⟩, hready.bodyActive, hready.sound, ⟨hready.bodyActive, hhave⟩, hfits⟩
  exact .header hready.bodyActive hhave hready.hdr hready.pending hready.decoded_le hpart

theorem Pending.head {opened : Nat} {transcript : Transcript} {n : Noted sigma}
    {items : List (FlightItem suite)}
    (h : Pending server readSize opened transcript n items) :
    exists rec records, server.recordsFrom opened items = rec :: records ∧
      rec.body.length ≤ readSize := by
  rcases h.flies.head server.keys.key server.keys.iv opened with ⟨rec, records, hrecords⟩
  have hsame : server.recordsFrom opened items = rec :: records := hrecords
  refine ⟨rec, records, hsame, h.fit rec ?_⟩
  rw [hsame]
  exact List.mem_cons_self

theorem openLoop_goes (hproper : Proper provider) (hsign : CanSign provider)
    (hfits : Fits server readSize writeSize) (fuel : Nat) {state : State}
    (hsized : Sized readSize writeSize c) (hready : c.recordReader.Ready)
    (h : At server readSize more wire stream c state) :
    exists result, openLoop suite kx config provider (fuel + 1) state c = .ok result ∧
      Goes server readSize writeSize more wire stream result ∧ flushes result = 0 := by
  have hrested := hsized.rested hready
  cases h with
  | clientHello hkeys hhandshake hverifier hwire hstream =>
      have hroom : (helloWire suite kx config provider).length ≤
          c.recordWriteBuf.buffer.length := by
        rw [hsized.write]
        exact hfits.hello
      rcases (clientHello_spec kx config provider hrested hkeys hhandshake).1 hroom with
        ⟨c', hrun, hrested', hsize, hzero, hgreeted, hreader, hkept⟩
      have hsized' : Sized readSize writeSize c' := by
        refine ⟨hrested'.free, hrested'.room, hsize.trans hsized.write, ?_⟩
        rw [hreader]
        exact hsized.read
      have hat : At server readSize more (wire ++ helloWire suite kx config provider) stream
          c'.counted .serverHello := by
        rw [hwire]
        exact .serverHello ⟨hgreeted.shared, hgreeted.key, hgreeted.transcript,
          hgreeted.handshake⟩ (hkept.trans hverifier) rfl hstream
      unfold openLoop
      rw [hrun, ok_bind]
      exact respond_some hsized' hrested'.ready (by rw [hzero]; decide) hat (List.cons_ne_nil _ _)
  | serverHello h hverifier hwire hstream =>
      have hsome : server.helloRecord ∈ server.records := List.mem_cons_self
      unfold openLoop
      rw [hready.read_eq, ok_bind]
      refine ⟨_, rfl, .readingHello _ _ hsized h hverifier hwire (facing_of_ready hready ?_ ?_),
        rfl⟩
      · rw [hstream]
        exact List.append_assoc _ _ _
      · rw [hsized.read]
        exact hfits.records _ hsome
  | serverVerify h hpending hwire hstream =>
      rcases hpending.head with ⟨rec, records, hrecords, hfit⟩
      unfold openLoop
      rw [hready.read_eq, ok_bind]
      refine ⟨_, rfl, .readingFlight _ _ hsized h hpending hrecords hwire
        (facing_of_ready hready ?_ ?_), rfl⟩
      · rw [hstream, hrecords]
        exact List.append_assoc _ _ _
      · rw [hsized.read]
        exact hfit
  | clientCert hrequest h hhandshake hwire hstream =>
      rename_i requestContext opened
      have hcontext : c.handshake.certificateRequest = some requestContext := by
        rw [hhandshake]
        exact hrequest
      have hflight : [] ++ (ClientRecordHeader.handshake true,
          certContent suite kx provider requestContext) ::
            (if provider.clientCert.isSome then
              verifyFlight suite kx config provider server.dhe server.hellos
                (server.transcript ++ certContent suite kx provider requestContext)
            else
              finishFlight suite kx config server.dhe server.hellos
                (server.transcript ++ certContent suite kx provider requestContext)) =
          answer server := by
        unfold answer
        rw [hrequest]
        rfl
      rcases answer_room hfits hflight with ⟨hroom, hshort⟩
      rw [← hsized.write] at hroom
      rcases (clientCert_spec kx hproper hrested h hcontext).1 hroom with
        ⟨c', hrun, hsealed, hkept⟩
      have htraffic : c'.handshake.trafficHash = some server.transcript := by
        rw [hkept]
      have hbefore : wire = helloWire suite kx config provider ++
          flightBytes (aead server) [] := hwire.trans (List.append_nil _).symm
      have hexpects : At server readSize more (wire ++ nextSealed suite config server.dhe
          server.hellos [] (.handshake true, certContent suite kx provider requestContext))
          stream c'.counted (stateAfterCert provider) := by
        unfold stateAfterCert
        split
        · rename_i hcert
          rw [if_pos hcert] at hflight
          exact .clientCertVerify hcert (answering_next hsealed hflight hbefore htraffic) hstream
        · rename_i hnone
          rw [if_neg hnone] at hflight
          exact .clientFinished (answering_next hsealed hflight hbefore htraffic) hstream
      unfold openLoop
      rw [hrun, ok_bind]
      exact respond_some (hsized.sealed hsealed) hsealed.rested.ready (hsealed.countable hshort)
        hexpects (nextSealed_ne_nil _ _)
  | clientCertVerify hcert h hstream =>
      rcases hsign hcert with ⟨signer, hsigner⟩
      rcases h.keyed with ⟨flight, opened, transcript, hkeyed, hflight, hwire⟩
      rcases clientCertVerify_spec kx hproper hrested hkeyed with
        ⟨record, answer, hsigned, hfit, _⟩
      rcases hsigned.content kx hsigner with ⟨hanswer, hheader, hpayload, hdigested⟩
      rw [hheader, hpayload, hdigested] at hfit
      rcases answer_room hfits hflight with ⟨hroom, hshort⟩
      rw [← hsized.write] at hroom
      rcases hfit hroom with ⟨c', hrun, hsealed, hkept⟩
      have htraffic : c'.handshake.trafficHash = some server.transcript := by
        rw [hkept]
        exact h.traffic
      unfold openLoop
      rw [hrun, ok_bind, hanswer]
      exact respond_some (hsized.sealed hsealed) hsealed.rested.ready (hsealed.countable hshort)
        (.clientFinished (answering_next hsealed hflight hwire htraffic) hstream)
        (nextSealed_ne_nil _ _)
  | clientFinished h hstream =>
      rcases h.keyed with ⟨flight, opened, transcript, hkeyed, hflight, hwire⟩
      rcases answer_room hfits hflight with ⟨hroom, hshort⟩
      rw [← hsized.write] at hroom
      rcases (clientFinished_spec kx hrested hkeyed).1 hroom with ⟨c', hrun, hsealed, hkept⟩
      have htraffic : c'.handshake.trafficHash = some server.transcript := by
        rw [hkept]
        exact h.traffic
      unfold openLoop
      rw [hrun, ok_bind]
      exact respond_some (hsized.sealed hsealed) hsealed.rested.ready (hsealed.countable hshort)
        ⟨answering_next hsealed hflight hwire htraffic, hstream⟩ (nextSealed_ne_nil _ _)
  | applicationData h hwire hstream =>
      unfold openLoop
      exact ⟨_, rfl, .opened _ rfl ⟨hsized.free, hsized.room, hsized.write, hsized.read⟩ hready
        ⟨h.client, h.server⟩ hwire hstream, rfl⟩

/-! ## A record of the server -/

theorem Facing.resume {rec : Record} {tail : List UInt8} {a : RecordReader.Await}
    {r : RecordReader} (h : Facing rec tail stream a r) {n : Nat}
    (hrequested : n ≤ a.requested r) (hlen : n ≤ stream.length) :
    exists progress, RecordReader.resume (stream.take n) a r = .ok progress ∧
      ((exists a' r', progress = (.awaits a', r') ∧ r'.buf.length = r.buf.length ∧
        Facing rec tail (stream.drop n) a' r') ∨
      (exists r', progress = (.ready rec.header rec.body, r') ∧
        r'.buf.length = r.buf.length ∧ r'.Ready ∧ rec.header.contentLength ≤ r'.decoded ∧
        stream.drop n = tail)) := by
  rcases h.reads with ⟨part, hholds, hstream⟩
  have hbytes : (stream.take n).length = n := by
    rw [List.length_take]
    omega
  have hlonger : part ++ stream.take n ++ stream.drop n = rec.wire ++ tail := by
    rw [List.append_assoc, List.take_append_drop]
    exact hstream
  have hcut : part ++ stream.take n <+: rec.wire := by
    have hwhole : part ++ stream.take n <+: rec.wire ++ tail := ⟨_, hlonger⟩
    refine List.prefix_of_prefix_length_le hwhole (List.prefix_append _ _) ?_
    have hroom := (RecordReader.AwaitAgrees.requested hholds h.agrees).2
    rw [List.length_append, hbytes]
    omega
  have hbound : (stream.take n).length ≤ a.requested r := by
    rw [hbytes]
    exact hrequested
  rcases RecordReader.resume_outcome hholds h.agrees hbound h.fits hcut with
    ⟨progress, hrun, houtcome⟩
  rcases RecordReader.resume_landed h.sound h.await hbound with ⟨progress', hrun', hlanded⟩
  rw [hrun] at hrun'
  cases hrun'
  refine ⟨progress, hrun, ?_⟩
  cases houtcome with
  | waits a' r' hsize hpart hholds' hagrees =>
      left
      cases hlanded with
      | awaits _ _ _ hsound hawait =>
          refine ⟨a', r', rfl, hsize, ⟨⟨_, hholds', hlonger⟩, hagrees, hsound, hawait, ?_⟩⟩
          rw [hsize]
          exact h.fits
  | done r' hsize hpart hholds' =>
      right
      cases hlanded with
      | ready _ _ _ _ hready _ _ hle _ =>
          refine ⟨r', rfl, hsize, hready, hle, ?_⟩
          rw [hpart] at hlonger
          exact List.append_cancel_left hlonger

theorem Facing.asks {rec : Record} {tail : List UInt8} {a : RecordReader.Await}
    {r : RecordReader} (h : Facing rec tail stream a r) :
    0 < a.requested r ∧ tail.length < stream.length := by
  rcases h.reads with ⟨part, hholds, hstream⟩
  have hlen := congrArg List.length hstream
  have hlt := hholds.length_lt
  rw [List.length_append, List.length_append] at hlen
  exact ⟨(RecordReader.AwaitAgrees.requested hholds h.agrees).1, by omega⟩

theorem decode_clearHandshake {content : List UInt8} (hfits : content.length < 256 ^ 2)
    {message : ServerHandshake} (hreads : (ServerHandshake.parse suite).Reads content message)
    (start : Nat) (transcript : Transcript) :
    ServerRecord.decode suite (clearHandshake content hfits).header start content transcript =
      .ok (.ok (.handshake (message.withHash suite transcript)), transcript ++ content) := by
  have hlen : (clearHandshake content hfits).header.contentLength = content.length :=
    (clearHandshake content hfits).body_length.symm
  have htype : ContentType.of ((clearHandshake content hfits).header.header.getD 0 0) =
      some .handshake := rfl
  have hparse := hreads (Cursor.start content) [] (Cursor.start_valid _)
    (List.append_nil _).symm
  have hread := ServerHandshake.read_of_parse suite transcript hparse
    (Cursor.valid_behind (Cursor.start_valid content) (List.append_nil _).symm)
  rw [Cursor.start_rest, List.take_length] at hread
  unfold ServerRecord.decode
  rw [if_neg (by rw [hlen]; exact not_not_intro rfl), htype]
  simp only [ServerRecord.parseAll, hread, ok_bind, pure_eq_ok]

theorem processRecord_hello
    (h : Greeted suite config provider (helloSent suite kx config provider) c)
    (hle : server.helloRecord.header.contentLength ≤ c.recordReader.decoded) :
    exists c', processRecord suite kx provider .serverHello server.helloRecord.header
        server.helloRecord.body c = .ok (.ok (.ok .serverVerify), c') ∧
      Keyed suite config server.dhe server.hellos [] 0 server.hellos c' ∧
      c'.handshake = Handshake.new ∧ c'.recordReader = c.recordReader ∧
      c'.recordWriteBuf = c.recordWriteBuf ∧ c'.verifier = c.verifier := by
  have hdecode : ServerRecord.decode suite server.helloRecord.header
      (c.recordReader.decoded - server.helloRecord.header.contentLength) server.helloRecord.body
      c.keySchedule.serverState.transcript = _ :=
    decode_clearHandshake server.hello_lt server.hello_reads _ _
  rcases processServerHello_answered kx
    (h.digested (c.keySchedule.serverState.transcript ++ server.hello)) server.agrees with
    ⟨c', hrun, hkeyed, hrest⟩
  rw [h.transcript] at hkeyed
  refine ⟨c', ?_, hkeyed, hrest⟩
  unfold processRecord
  rw [sub_of_le hle, ok_bind, hdecode, ok_bind]
  simp only [if_true, ServerHandshake.withHash, hrun]
  rfl

theorem processRecord_flight (hready : c.recordReader.Ready) {header : RecordHeader}
    {body plain : List UInt8} {record : ServerRecord} {keys : ReadKeySchedule}
    {s : Verifying sigma} (hle : header.contentLength ≤ c.recordReader.decoded)
    (hplain : plain.length ≤ header.contentLength)
    (hdecode : ServerRecord.decode suite header (c.recordReader.decoded - header.contentLength)
      body c.keySchedule.serverState.transcript =
        .ok (.ok record, c.keySchedule.serverState.transcript))
    (hdecrypt : decryptRecord suite (verifyHandshake suite provider) record
      (c.keySchedule.serverState,
        { state := .serverVerify, handshake := c.handshake, verifier := c.verifier }) =
      .ok (.ok (), plain, keys, s)) :
    exists c', processRecord suite kx provider .serverVerify header body c =
        .ok (.ok (.ok s.state), c') ∧
      c'.keySchedule = { c.keySchedule with serverState := keys } ∧
      c'.handshake = s.handshake ∧ c'.verifier = s.verifier ∧
      c'.recordWriteBuf = c.recordWriteBuf ∧ c'.recordReader.Ready ∧
      c'.recordReader.buf.length = c.recordReader.buf.length := by
  have hfit : c.recordReader.decoded - header.contentLength + plain.length ≤
      c.recordReader.decoded := by
    omega
  have hverify := processServerVerify_eq (c := { c with
    keySchedule := c.keySchedule.replaceTranscriptHash
      c.keySchedule.serverState.transcript }) hdecrypt
  have hspliced := hready.spliced hfit
  unfold processRecord
  rw [sub_of_le hle, ok_bind, hdecode, ok_bind]
  simp only [reduceCtorEq, if_false]
  rw [hverify, ok_bind]
  exact ⟨_, rfl, rfl, rfl, rfl, rfl, hspliced.1, hspliced.2⟩

theorem decryptRecord_sealed {opened : Nat} {transcript : Transcript} {n : Noted sigma}
    (h : Watching server opened transcript n c) {content : List UInt8} {padding : Nat}
    (hfits : (messagesPlain content padding).length + suite.tagLen < 256 ^ 2)
    {transcript' : Transcript} {s : Verifying sigma}
    (hloop : handshakeLoop suite (verifyHandshake suite provider) (content.length + 1)
      (Cursor.start content) (c.keySchedule.serverState, n.verifying) =
        .ok (.ok (), ({ c.keySchedule.serverState with transcript := transcript' }, s)))
    (hcount : opened + 1 < UInt64.size) (start : Nat) :
    decryptRecord suite (verifyHandshake suite provider)
        (.applicationData
          { header := sealedHeader suite (messagesPlain content padding)
            start := start
            data := (sealedRecord suite server.keys.key server.keys.iv opened
              (messagesPlain content padding) hfits).body })
        (c.keySchedule.serverState,
          { state := .serverVerify, handshake := c.handshake, verifier := c.verifier }) =
      .ok (.ok (), messagesPlain content padding,
        ({ state := { server.keys with counter := opened + 1 }, transcript := transcript' },
          s)) := by
  have hserver := h.keyed.server
  have hopens : suite.decrypt c.keySchedule.serverState.state.key
      c.keySchedule.serverState.state.nonce
      (sealedHeader suite (messagesPlain content padding)).header
      (sealedRecord suite server.keys.key server.keys.iv opened
        (messagesPlain content padding) hfits).body = some (messagesPlain content padding) := by
    rw [hserver]
    exact suite.decrypt_encrypt _ _ _ _
  have hcounted : ({ c.keySchedule.serverState with transcript := transcript' } :
      ReadKeySchedule).state.counter + 1 < UInt64.size := by
    rw [hserver]
    exact hcount
  have hplain := handlePlain_messages (sealedHeader suite (messagesPlain content padding)) start
    padding hloop hcounted
  have hkeys : ({ c.keySchedule.serverState with transcript := transcript' } :
      ReadKeySchedule).counted =
        { state := { server.keys with counter := opened + 1 }, transcript := transcript' } := by
    rw [hserver]
    rfl
  rw [h.handshake, h.verifier]
  unfold decryptRecord
  simp only [hopens]
  rw [hkeys] at hplain
  have hsame : handlePlain suite (verifyHandshake suite provider)
      (sealedHeader suite (messagesPlain content padding)) start (messagesPlain content padding)
      (c.keySchedule.serverState,
        { state := .serverVerify, handshake := n.handshake, verifier := n.verifier }) = _ := hplain
  rw [hsame, ok_bind]
  rfl

theorem decode_changeCipherSpec (start : Nat) (transcript : Transcript) :
    ServerRecord.decode suite changeCipherSpecRecord.header start changeCipherSpecRecord.body
      transcript = .ok (.ok .changeCipherSpec, transcript) := by
  have hlen := changeCipherSpecRecord.body_length
  unfold ServerRecord.decode
  rw [if_neg (by rw [hlen]; exact not_not_intro rfl)]
  rfl

theorem decode_sealed (key iv : List UInt8) (i : Nat) {plain : List UInt8}
    (hfits : plain.length + suite.tagLen < 256 ^ 2) (start : Nat) (transcript : Transcript) :
    ServerRecord.decode suite (sealedHeader suite plain) start
        (sealedRecord suite key iv i plain hfits).body transcript =
      .ok (.ok (.applicationData
        { header := sealedHeader suite plain
          start := start
          data := (sealedRecord suite key iv i plain hfits).body }), transcript) := by
  have hlen : (sealedHeader suite plain).contentLength =
      (sealedRecord suite key iv i plain hfits).body.length :=
    (sealedRecord suite key iv i plain hfits).body_length.symm
  unfold ServerRecord.decode
  rw [if_neg (by rw [hlen]; exact not_not_intro rfl)]
  rfl

theorem Watching.rekeyed {opened opened' : Nat} {transcript transcript' : Transcript}
    {n : Noted sigma} (h : Watching server opened transcript n c) {c' : Opening sigma}
    (hschedule : c'.keySchedule =
      { c.keySchedule with
        serverState :=
          { state := { server.keys with counter := opened' }, transcript := transcript' } }) :
    Keyed suite config server.dhe server.hellos [] opened' transcript' c' := by
  refine ⟨?_, ?_, ?_⟩
  · rw [hschedule]
    exact h.keyed.shared
  · rw [hschedule]
    exact h.keyed.client
  · rw [hschedule]
    rfl

theorem processRecord_opened {opened : Nat} {transcript : Transcript} {n : Noted sigma}
    (h : Watching server opened transcript n c) {content : List UInt8} {padding : Nat}
    (hfits : (messagesPlain content padding).length + suite.tagLen < 256 ^ 2)
    (hready : c.recordReader.Ready)
    (hle : (sealedHeader suite (messagesPlain content padding)).contentLength ≤
      c.recordReader.decoded)
    {transcript' : Transcript} {s : Verifying sigma}
    (hloop : handshakeLoop suite (verifyHandshake suite provider) (content.length + 1)
      (Cursor.start content)
      ({ state := c.keySchedule.serverState.state, transcript := transcript }, n.verifying) =
        .ok (.ok (), ({ state := c.keySchedule.serverState.state, transcript := transcript' }, s)))
    (hcount : opened + 1 < UInt64.size) :
    exists c', processRecord suite kx provider .serverVerify
        (sealedHeader suite (messagesPlain content padding))
        (sealedRecord suite server.keys.key server.keys.iv opened
          (messagesPlain content padding) hfits).body c = .ok (.ok (.ok s.state), c') ∧
      Keyed suite config server.dhe server.hellos [] (opened + 1) transcript' c' ∧
      c'.handshake = s.handshake ∧ c'.verifier = s.verifier ∧
      c'.recordWriteBuf = c.recordWriteBuf ∧ c'.recordReader.Ready ∧
      c'.recordReader.buf.length = c.recordReader.buf.length := by
  have hstate : c.keySchedule.serverState =
      { state := c.keySchedule.serverState.state, transcript := transcript } := by
    rw [h.keyed.server]
  have hplain : (messagesPlain content padding).length ≤
      (sealedHeader suite (messagesPlain content padding)).contentLength := by
    rw [contentLength_sealedHeader suite hfits]
    exact Nat.le_add_right _ _
  rw [← hstate] at hloop
  have hdecrypt := decryptRecord_sealed h hfits hloop hcount
    (c.recordReader.decoded -
      (sealedHeader suite (messagesPlain content padding)).contentLength)
  rcases processRecord_flight hready hle hplain (decode_sealed _ _ _ hfits _ _) hdecrypt with
    ⟨c', hrun, hschedule, hrest⟩
  exact ⟨c', hrun, h.rekeyed hschedule, hrest⟩

theorem processRecord_at {opened : Nat} {transcript : Transcript} {n : Noted sigma}
    {items : List (FlightItem suite)} (h : Watching server opened transcript n c)
    (hpending : Pending server readSize opened transcript n items) {rec : Record}
    {records : List Record} (hrecords : server.recordsFrom opened items = rec :: records)
    (hready : c.recordReader.Ready)
    (hle : rec.header.contentLength ≤ c.recordReader.decoded) :
    exists state c', processRecord suite kx provider .serverVerify rec.header rec.body c =
        .ok (.ok (.ok state), c') ∧
      c'.recordWriteBuf = c.recordWriteBuf ∧ c'.recordReader.Ready ∧
      c'.recordReader.buf.length = c.recordReader.buf.length ∧
      At server readSize more (helloWire suite kx config provider) (wireOf records ++ more) c'
        state := by
  have hcount : opened + 1 < UInt64.size := by
    have hfew := hpending.few
    omega
  have hstate : c.keySchedule.serverState.state =
      { serverTraffic suite config server.dhe server.hellos with counter := opened } := by
    rw [h.keyed.server]
  rcases hpending with ⟨hflies, hfew, hfit⟩
  generalize hfinal : server.transcript = final at hflies
  generalize hlast : server.noted = last at hflies
  cases hflies with
  | @changeCipherSpec _ _ _ _ items hrest =>
      have hsplit : changeCipherSpecRecord :: server.recordsFrom opened items = rec :: records :=
        hrecords
      rcases List.cons.inj hsplit with ⟨rfl, rfl⟩
      rcases @processRecord_flight _ _ kx provider c hready _ _ [] _ c.keySchedule.serverState
        { state := .serverVerify, handshake := c.handshake, verifier := c.verifier } hle
        (Nat.zero_le _) (decode_changeCipherSpec _ _) rfl with
        ⟨c', hrun, hschedule, hhandshake, hverifier, hbuffer, hready', hsize⟩
      have hpending' : Pending server readSize opened transcript n items := by
        refine ⟨?_, ?_, fun rec hrec => hfit rec (List.mem_cons_of_mem _ hrec)⟩
        · rw [hfinal, hlast]
          exact hrest
        · rw [List.length_cons] at hfew
          omega
      have hwatching : Watching server opened transcript n c' := by
        refine ⟨h.rekeyed ?_, hhandshake.trans h.handshake, hverifier.trans h.verifier⟩
        rw [hschedule, h.keyed.server]
        rfl
      exact ⟨_, c', hrun, hbuffer, hready', hsize, .serverVerify hwatching hpending' rfl rfl⟩
  | @messages _ _ _ n' _ items content padding fits htakes hrest =>
      have hsplit : sealedRecord suite server.keys.key server.keys.iv opened
          (messagesPlain content padding) fits :: server.recordsFrom (opened + 1) items =
            rec :: records := hrecords
      rcases List.cons.inj hsplit with ⟨rfl, rfl⟩
      rcases processRecord_opened h fits hready hle
        (handshakeLoop_messages htakes c.keySchedule.serverState.state) hcount with
        ⟨c', hrun, hkeyed, hhandshake, hverifier, hbuffer, hready', hsize⟩
      have hpending' : Pending server readSize (opened + 1) (transcript ++ content) n' items := by
        refine ⟨?_, ?_, fun rec hrec => hfit rec (List.mem_cons_of_mem _ hrec)⟩
        · rw [hfinal, hlast]
          exact hrest
        · rw [List.length_cons] at hfew
          omega
      exact ⟨_, c', hrun, hbuffer, hready', hsize,
        .serverVerify ⟨hkeyed, hhandshake, hverifier⟩ hpending' rfl rfl⟩
  | @finished _ _ n' content padding fits htakes =>
      have hsplit : [sealedRecord suite server.keys.key server.keys.iv opened
          (messagesPlain _ padding) fits] = rec :: records := hrecords
      rcases List.cons.inj hsplit with ⟨rfl, rfl⟩
      rcases processRecord_opened h fits hready hle
        (handshakeLoop_finished htakes hstate rfl) hcount with
        ⟨c', hrun, hkeyed, hhandshake, hverifier, hbuffer, hready', hsize⟩
      refine ⟨_, c', hrun, hbuffer, hready', hsize, ?_⟩
      rw [← hfinal] at hkeyed hhandshake ⊢
      rw [← hlast] at hhandshake ⊢
      cases hrequest : server.noted.request with
      | some requestContext =>
          have hfinished : server.noted.finished server.transcript =
              { server.noted.verifying with state := .clientCert } := by
            unfold Noted.finished
            rw [hrequest]
            rfl
          rw [hfinished] at hhandshake ⊢
          exact .clientCert hrequest hkeyed hhandshake rfl rfl
      | none =>
          have hfinished : server.noted.finished server.transcript =
              { server.noted.verifying with
                state := .clientFinished
                handshake := { server.noted.handshake with
                  trafficHash := some server.transcript } } := by
            unfold Noted.finished
            rw [hrequest]
            rfl
          have hanswer : [] ++ finishFlight suite kx config server.dhe server.hellos
              server.transcript = answer server := by
            unfold answer
            rw [hrequest]
            rfl
          rw [hfinished] at hhandshake ⊢
          refine .clientFinished ⟨⟨[], _, _, hkeyed, hanswer, (List.append_nil _).symm⟩, ?_⟩ rfl
          rw [hhandshake]

theorem arrived_goes (hproper : Proper provider) (hsign : CanSign provider)
    (hfits : Fits server readSize writeSize) {state : State} {a : RecordReader.Await}
    (h : Goes server readSize writeSize more wire stream (.awaits (.reading state a), c))
    {n : Nat} (hrequested : n ≤ a.requested c.recordReader) (hlen : n ≤ stream.length) :
    exists result, arrived suite kx config provider (stream.take n) state a c = .ok result ∧
      Goes server readSize writeSize more wire (stream.drop n) result ∧ flushes result = 0 := by
  unfold arrived
  cases h with
  | readingHello _ _ hsized hgreeted hverifier hwire hfacing =>
      have hsized' {r : RecordReader} (hsize : r.buf.length = c.recordReader.buf.length) :
          Sized readSize writeSize { c with recordReader := r } :=
        ⟨hsized.free, hsized.room, hsized.write, hsize.trans hsized.read⟩
      have hgreeted' (r : RecordReader) : Greeted suite config provider
          (helloSent suite kx config provider) { c with recordReader := r } :=
        ⟨hgreeted.shared, hgreeted.key, hgreeted.transcript, hgreeted.handshake⟩
      rcases hfacing.resume hrequested hlen with ⟨progress, hrun, hread⟩
      rw [hrun, ok_bind]
      rcases hread with ⟨a', r', rfl, hsize, hfacing'⟩ | ⟨r', rfl, hsize, hready, hle, htail⟩
      · exact ⟨_, rfl, .readingHello a' _ (hsized' hsize) (hgreeted' r') hverifier hwire hfacing',
          rfl⟩
      · rcases processRecord_hello (hgreeted' r') hle with
          ⟨c', hprocess, hkeyed, hhandshake, hreader, hbuffer, hkept⟩
        have hsized'' : Sized readSize writeSize c' := by
          refine ⟨?_, ?_, ?_, ?_⟩
          · rw [hbuffer]
            exact hsized.free
          · rw [hbuffer]
            exact hsized.room
          · rw [hbuffer]
            exact hsized.write
          · rw [hreader]
            exact (hsized' hsize).read
        have hready' : c'.recordReader.Ready := by
          rw [hreader]
          exact hready
        have hpending : Pending server readSize 0 server.hellos
            { request := none, verifier := verifier } server.items := by
          refine ⟨server.flies, ?_, ?_⟩
          · rw [Nat.zero_add]
            exact server.few
          · intro rec hrec
            exact hfits.records rec (List.mem_cons_of_mem _ hrec)
        have hwatching : Watching server 0 server.hellos
            { request := none, verifier := verifier } c' :=
          ⟨hkeyed, hhandshake, hkept.trans hverifier⟩
        have hat : At server readSize more wire (stream.drop n) c' .serverVerify :=
          .serverVerify hwatching hpending hwire htail
        simp only [recordRead, hprocess, ok_bind, handleProcessingError]
        exact openLoop_goes hproper hsign hfits 1 hsized'' hready' hat
  | readingFlight _ _ hsized hwatching hpending hrecords hwire hfacing =>
      have hsized' {r : RecordReader} (hsize : r.buf.length = c.recordReader.buf.length) :
          Sized readSize writeSize { c with recordReader := r } :=
        ⟨hsized.free, hsized.room, hsized.write, hsize.trans hsized.read⟩
      have hwatching' (r : RecordReader) :
          Watching server _ _ _ { c with recordReader := r } :=
        ⟨⟨hwatching.keyed.shared, hwatching.keyed.client, hwatching.keyed.server⟩,
          hwatching.handshake, hwatching.verifier⟩
      rcases hfacing.resume hrequested hlen with ⟨progress, hrun, hread⟩
      rw [hrun, ok_bind]
      rcases hread with ⟨a', r', rfl, hsize, hfacing'⟩ | ⟨r', rfl, hsize, hready, hle, htail⟩
      · exact ⟨_, rfl, .readingFlight a' _ (hsized' hsize) (hwatching' r') hpending hrecords hwire
          hfacing', rfl⟩
      · rcases processRecord_at (hwatching' r') hpending hrecords hready hle with
          ⟨state, c', hprocess, hbuffer, hready', hsize', hat⟩
        have hsized'' : Sized readSize writeSize c' := by
          refine ⟨?_, ?_, ?_, hsize'.trans (hsized' hsize).read⟩
          · rw [hbuffer]
            exact hsized.free
          · rw [hbuffer]
            exact hsized.room
          · rw [hbuffer]
            exact hsized.write
        rw [← hwire, ← htail] at hat
        simp only [recordRead, hprocess, ok_bind, handleProcessingError]
        exact openLoop_goes hproper hsign hfits 1 hsized'' hready' hat

theorem flushed_goes (hproper : Proper provider) (hsign : CanSign provider)
    (hfits : Fits server readSize writeSize) {after : After}
    (hsized : Sized readSize writeSize c) (hready : c.recordReader.Ready)
    (h : Expects server readSize more wire stream c after) :
    exists result, flushed suite kx config provider after c = .ok result ∧
      Goes server readSize writeSize more wire stream result ∧ flushes result = 0 := by
  unfold flushed
  cases after with
  | goesOn result =>
      cases result with
      | error e => exact absurd h id
      | ok state => exact openLoop_goes hproper hsign hfits 1 hsized hready h
  | finalizes =>
      rcases h with ⟨hanswering, hstream⟩
      rcases hanswering.keyed with ⟨flight, opened, transcript, hkeyed, hflight, hwire⟩
      rw [List.append_nil] at hflight
      rcases clientFinishedFinalize_spec hkeyed.shared hanswering.traffic with
        ⟨c', hrun, hagreed, hreader, hbuffer⟩
      have hsized' : Sized readSize writeSize c' := by
        refine ⟨?_, ?_, ?_, ?_⟩
        · rw [hbuffer]
          exact hsized.free
        · rw [hbuffer]
          exact hsized.room
        · rw [hbuffer]
          exact hsized.write
        · rw [hreader]
          exact hsized.read
      have hready' : c'.recordReader.Ready := by
        rw [hreader]
        exact hready
      have hwhole : wire = clientWire server := by
        rw [hwire, hflight]
        rfl
      simp only [hrun]
      exact openLoop_goes hproper hsign hfits 1 hsized' hready'
        (.applicationData hagreed hwhole hstream)

def named (config : TlsConfig) (provider : CryptoProvider sigma) (v : sigma) :
    Except ProtocolError Unit × sigma :=
  match provider.verifier, config.serverName with
  | some verifier, some serverName => verifier.setHostnameVerification serverName v
  | _, _ => (.ok (), v)

theorem call_goes (hproper : Proper provider) (hsign : CanSign provider)
    (hfits : Fits server readSize writeSize) (hsized : Sized readSize writeSize c)
    (hready : c.recordReader.Ready) (hkeys : c.keySchedule = KeySchedule.new suite)
    (hnamed : named config provider c.verifier = (.ok (), verifier))
    (hstream : stream = wireOf server.records ++ more) :
    exists result, call suite kx config provider c = .ok result ∧
      Goes server readSize writeSize more [] stream result ∧ flushes result = 0 := by
  have hloop (v : sigma) (hv : v = verifier) : exists result,
      openLoop suite kx config provider 2 .clientHello
        { c with handshake := Handshake.new, verifier := v } = .ok result ∧
      Goes server readSize writeSize more [] stream result ∧ flushes result = 0 :=
    openLoop_goes hproper hsign hfits 1 ⟨hsized.free, hsized.room, hsized.write, hsized.read⟩
      hready (.clientHello hkeys rfl hv rfl hstream)
  unfold call
  unfold named at hnamed
  cases hsome : provider.verifier with
  | none =>
      rw [hsome] at hnamed
      exact hloop c.verifier (Prod.mk.inj hnamed).2
  | some v =>
      cases hname : config.serverName with
      | none =>
          rw [hsome, hname] at hnamed
          exact hloop c.verifier (Prod.mk.inj hnamed).2
      | some serverName =>
          rw [hsome, hname] at hnamed
          simp only at hnamed ⊢
          rw [hnamed]
          exact hloop verifier rfl

/-! ## Bounds -/

theorem flightBytes_append (aead : Aead)
    (flight rest : List (ClientRecordHeader × List UInt8)) :
    flightBytes aead flight <+: flightBytes aead (flight ++ rest) := by
  unfold flightBytes
  rw [List.zipIdx_append, List.flatMap_append]
  exact List.prefix_append _ _

theorem answering_short {left : Transcript -> List (ClientRecordHeader × List UInt8)}
    (h : Answering server left wire c) : wire.length ≤ (clientWire server).length := by
  rcases h.keyed with ⟨flight, opened, transcript, _, hflight, hwire⟩
  have hstarts := flightBytes_append (aead server) flight (left transcript)
  rw [hflight] at hstarts
  unfold clientWire
  rw [hwire, List.length_append, List.length_append]
  exact Nat.add_le_add_left hstarts.length_le _

theorem at_bounds {state : State} (h : At server readSize more wire stream c state) :
    wire.length ≤ (clientWire server).length ∧ more.length ≤ stream.length := by
  have hhello : (helloWire suite kx config provider).length ≤ (clientWire server).length := by
    unfold clientWire
    rw [List.length_append]
    exact Nat.le_add_right _ _
  have hbehind (records : List UInt8) (hstream : stream = records ++ more) :
      more.length ≤ stream.length := by
    rw [hstream, List.length_append]
    exact Nat.le_add_left _ _
  cases h with
  | clientHello _ _ _ hwire hstream =>
      rw [hwire]
      exact ⟨Nat.zero_le _, hbehind _ hstream⟩
  | serverHello _ _ hwire hstream =>
      rw [hwire]
      exact ⟨hhello, hbehind _ hstream⟩
  | serverVerify _ _ hwire hstream =>
      rw [hwire]
      exact ⟨hhello, hbehind _ hstream⟩
  | clientCert _ _ _ hwire hstream =>
      rw [hwire, hstream]
      exact ⟨hhello, Nat.le_refl _⟩
  | clientCertVerify _ h hstream => exact ⟨answering_short h, hbehind [] hstream⟩
  | clientFinished h hstream => exact ⟨answering_short h, hbehind [] hstream⟩
  | applicationData _ hwire hstream =>
      rw [hwire, hstream]
      exact ⟨Nat.le_refl _, Nat.le_refl _⟩

theorem expects_bounds {after : After} (h : Expects server readSize more wire stream c after) :
    wire.length ≤ (clientWire server).length ∧ more.length ≤ stream.length := by
  cases after with
  | goesOn result =>
      cases result with
      | error e => exact absurd h id
      | ok state => exact at_bounds h
  | finalizes =>
      exact ⟨answering_short h.1, Nat.le_of_eq (congrArg List.length h.2.symm)⟩

theorem goes_bounds {result : Progress × Opening sigma}
    (h : Goes server readSize writeSize more wire stream result) :
    wire.length ≤ (clientWire server).length ∧ more.length ≤ stream.length := by
  cases h with
  | readingHello a c hsized h hverifier hwire hfacing =>
      have hasks := hfacing.asks.2
      rw [List.length_append] at hasks
      refine ⟨?_, by omega⟩
      unfold clientWire
      rw [hwire, List.length_append]
      exact Nat.le_add_right _ _
  | readingFlight a c hsized h hpending hrecords hwire hfacing =>
      have hasks := hfacing.asks.2
      rw [List.length_append] at hasks
      refine ⟨?_, by omega⟩
      unfold clientWire
      rw [hwire, List.length_append]
      exact Nat.le_add_right _ _
  | sending rest after c hsized hready hrest hcount hexpects =>
      have hbounds := expects_bounds hexpects
      rw [List.length_append] at hbounds
      exact ⟨by omega, hbounds.2⟩
  | flushing after c hsized hready hexpects => exact expects_bounds hexpects
  | opened c hopened hsized hready h hwire hstream =>
      rw [hwire, hstream]
      exact ⟨Nat.le_refl _, Nat.le_refl _⟩

/-! ## Runs -/

variable (server readSize writeSize more) in
inductive Completes (v : sigma) (s : System sigma) : Prop where
  | fresh (hfuture : s.future = none) (hresult : s.result = none) (hwire : s.wire = [])
      (hsized : Sized readSize writeSize s.conn) (hready : s.conn.recordReader.Ready)
      (hkeys : s.conn.keySchedule = KeySchedule.new suite) (hverifier : s.conn.verifier = v)
      (hstream : s.stream = wireOf server.records ++ more) : Completes v s
  | waits (a : Await) (hfuture : s.future = some a) (hresult : s.result = none)
      (h : Goes server readSize writeSize more s.wire s.stream (.awaits a, s.conn)) :
      Completes v s
  | opened (hfuture : s.future = none) (hresult : s.result = some (.ok ()))
      (h : Goes server readSize writeSize more s.wire s.stream (.returned (.ok ()), s.conn)) :
      Completes v s

def idles : Option Await -> Nat
  | some (.flushing _) => 1
  | _ => 0

variable (server more) in
/-- How many more events there can be. -/
def rank (s : System sigma) : Nat :=
  2 * ((clientWire server).length - s.wire.length) + (s.stream.length - more.length) +
    idles s.future + (if s.result = none ∧ s.future = none then 1 else 0)

variable {v : sigma} {s t : System sigma} {e : Event} {es : List Event}

theorem settle_completes {result : Progress × Opening sigma} (hresult : s.result = none)
    (h : Goes server readSize writeSize more s.wire s.stream result) :
    Completes server readSize writeSize more v (settle s result) ∧
      rank server more (settle s result) =
        2 * ((clientWire server).length - s.wire.length) + (s.stream.length - more.length) +
          flushes result := by
  rcases result with ⟨progress, c⟩
  cases h with
  | readingHello a c hsized hgreeted hverifier hwire hfacing =>
      refine ⟨.waits _ rfl hresult (.readingHello a c hsized hgreeted hverifier hwire hfacing), ?_⟩
      simp [rank, settle, idles, flushes]
  | readingFlight a c hsized hwatching hpending hrecords hwire hfacing =>
      refine ⟨.waits _ rfl hresult
        (.readingFlight a c hsized hwatching hpending hrecords hwire hfacing), ?_⟩
      simp [rank, settle, idles, flushes]
  | sending rest after c hsized hready hrest hcount hexpects =>
      refine ⟨.waits _ rfl hresult (.sending rest after c hsized hready hrest hcount hexpects), ?_⟩
      simp [rank, settle, idles, flushes]
  | flushing after c hsized hready hexpects =>
      refine ⟨.waits _ rfl hresult (.flushing after c hsized hready hexpects), ?_⟩
      simp [rank, settle, idles, flushes]
  | opened c hopened hsized hready hagreed hwire hstream =>
      refine ⟨.opened rfl rfl (.opened c hopened hsized hready hagreed hwire hstream), ?_⟩
      simp [rank, settle, idles, flushes]

theorem Completes.waiting (h : Completes server readSize writeSize more v s) {a : Await}
    (hfuture : s.future = some a) :
    s.result = none ∧ Goes server readSize writeSize more s.wire s.stream (.awaits a, s.conn) := by
  cases h with
  | fresh hnone _ _ _ _ _ _ _ =>
      rw [hfuture] at hnone
      cases hnone
  | opened hnone _ _ =>
      rw [hfuture] at hnone
      cases hnone
  | waits a' hsome hresult h =>
      rw [hfuture] at hsome
      cases hsome
      exact ⟨hresult, h⟩

/-- Every event but a failure of the transport succeeds, and lowers the rank. -/
theorem next_completes (hproper : Proper provider) (hsign : CanSign provider)
    (hfits : Fits server readSize writeSize) (hnamed : named config provider v = (.ok (), verifier))
    (h : Completes server readSize writeSize more v s) (henabled : Enabled e s)
    (hup : e ≠ .transportFailed) :
    exists t, next suite kx config provider e s = .ok t ∧
      Completes server readSize writeSize more v t ∧ rank server more t < rank server more s := by
  cases e with
  | transportFailed => exact absurd rfl hup
  | called =>
      rcases henabled with ⟨hfuture, hresult⟩
      cases h with
      | waits a hsome _ _ =>
          rw [hfuture] at hsome
          cases hsome
      | opened _ hsome _ =>
          rw [hresult] at hsome
          cases hsome
      | fresh _ _ hwire hsized hready hkeys hverifier hstream =>
          rw [← hverifier] at hnamed
          rcases call_goes hproper hsign hfits hsized hready hkeys hnamed hstream with
            ⟨result, hrun, hgoes, hquiet⟩
          rw [← hwire] at hgoes
          rcases settle_completes (v := v) hresult hgoes with ⟨hcompletes, hrank⟩
          refine ⟨settle s result, ?_, hcompletes, ?_⟩
          · unfold next
            rw [hrun]
            rfl
          · rw [hrank, hquiet]
            simp only [rank, hfuture, hresult, idles, and_self, if_true]
            omega
  | arrived n =>
      rcases henabled with ⟨state, a, hfuture, hpos, hrequested, hlen⟩
      rcases h.waiting hfuture with ⟨hresult, hgoes⟩
      rcases arrived_goes hproper hsign hfits hgoes hrequested hlen with
        ⟨result, hrun, hgoes', hquiet⟩
      have hbounds := (goes_bounds hgoes').2
      rcases settle_completes (s := { s with stream := s.stream.drop n }) (v := v) hresult hgoes'
        with ⟨hcompletes, hrank⟩
      refine ⟨_, ?_, hcompletes, ?_⟩
      · unfold next
        rw [hfuture]
        simp only [hrun, ok_bind]
        rfl
      · rw [hrank, hquiet]
        rw [List.length_drop] at hbounds
        simp only [rank, hfuture, idles, List.length_drop, reduceCtorEq, and_false, if_false]
        omega
  | wrote n =>
      rcases henabled with ⟨rest, after, hfuture, hpos, hlen⟩
      rcases h.waiting hfuture with ⟨hresult, hgoes⟩
      cases hgoes with
      | sending _ _ _ hsized hready hrest hcount hexpects =>
          have hsame : s.wire ++ rest.take n ++ rest.drop n = s.wire ++ rest := by
            rw [List.append_assoc, List.take_append_drop]
          rw [← hsame] at hexpects
          have hwhole := (expects_bounds hexpects).1
          rcases respond_goes hsized hready hcount hexpects with ⟨result, hrun, hgoes', _⟩
          rcases settle_completes (s := { s with wire := s.wire ++ rest.take n }) (v := v)
            hresult hgoes' with ⟨hcompletes, hrank⟩
          have hflushes : flushes result ≤ 1 := by
            unfold flushes
            split
            · exact Nat.le_refl 1
            · exact Nat.zero_le 1
          refine ⟨_, ?_, hcompletes, ?_⟩
          · unfold next
            rw [hfuture]
            simp only [hrun, ok_bind]
            rfl
          · rw [hrank]
            rw [hsame, List.length_append] at hwhole
            simp only [rank, hfuture, idles, List.length_append, List.length_take, reduceCtorEq,
              and_false, if_false]
            omega
  | flushed =>
      rcases henabled with ⟨after, hfuture⟩
      rcases h.waiting hfuture with ⟨hresult, hgoes⟩
      cases hgoes with
      | flushing _ _ hsized hready hexpects =>
          rcases flushed_goes hproper hsign hfits hsized hready hexpects with
            ⟨result, hrun, hgoes', hquiet⟩
          rcases settle_completes (v := v) hresult hgoes' with ⟨hcompletes, hrank⟩
          refine ⟨settle s result, ?_, hcompletes, ?_⟩
          · unfold next
            rw [hfuture]
            simp only [hrun, ok_bind]
            rfl
          · rw [hrank, hquiet]
            simp only [rank, hfuture, idles, reduceCtorEq, and_false, if_false]
            omega

theorem Completes.can_go (h : Completes server readSize writeSize more v s)
    (hresult : s.result = none) : exists e, e ≠ .transportFailed ∧ Enabled e s := by
  cases h with
  | fresh hfuture _ _ _ _ _ _ _ => exact ⟨.called, nofun, hfuture, hresult⟩
  | opened _ hsome _ =>
      rw [hresult] at hsome
      cases hsome
  | waits a hfuture _ h =>
      cases h with
      | readingHello a _ _ _ _ _ hfacing =>
          have hstream := Nat.lt_of_le_of_lt (Nat.zero_le _) hfacing.asks.2
          exact ⟨.arrived 1, nofun, _, a, hfuture, Nat.one_pos, hfacing.asks.1, hstream⟩
      | readingFlight a _ _ _ _ _ _ hfacing =>
          have hstream := Nat.lt_of_le_of_lt (Nat.zero_le _) hfacing.asks.2
          exact ⟨.arrived 1, nofun, _, a, hfuture, Nat.one_pos, hfacing.asks.1, hstream⟩
      | sending rest after _ _ _ hrest _ _ =>
          exact ⟨.wrote 1, nofun, rest, after, hfuture, Nat.one_pos, List.length_pos_iff.mpr hrest⟩
      | flushing after _ _ _ _ => exact ⟨.flushed, nofun, after, hfuture⟩

theorem Completes.ends (h : Completes server readSize writeSize more v s) :
    s.result = none ∨ (s.result = some (.ok ()) ∧
      Goes server readSize writeSize more s.wire s.stream (.returned (.ok ()), s.conn)) := by
  cases h with
  | fresh _ hresult _ _ _ _ _ _ => exact Or.inl hresult
  | waits _ _ hresult _ => exact Or.inl hresult
  | opened _ hresult h => exact Or.inr ⟨hresult, h⟩

theorem Completes.exists_run (hproper : Proper provider) (hsign : CanSign provider)
    (hfits : Fits server readSize writeSize) (hnamed : named config provider v = (.ok (), verifier))
    (h : Completes server readSize writeSize more v s) :
    exists es t, Run (step suite kx config provider) s es t ∧
      (forall e, e ∈ es -> e ≠ .transportFailed) ∧ t.result = some (.ok ()) := by
  induction hrank : rank server more s using Nat.strongRecOn generalizing s with
  | ind n ih =>
      rcases h.ends with hresult | ⟨hdone, _⟩
      · rcases h.can_go hresult with ⟨e, hup, henabled⟩
        rcases next_completes hproper hsign hfits hnamed h henabled hup with
          ⟨s', hnext, h', hlower⟩
        rw [hrank] at hlower
        rcases ih _ hlower h' rfl with ⟨es, t, hrun, hups, hdone⟩
        refine ⟨e :: es, t, .cons ⟨henabled, hnext⟩ hrun, ?_, hdone⟩
        intro e' hmem
        rcases List.mem_cons.mp hmem with heq | hmem
        · rw [heq]
          exact hup
        · exact hups e' hmem
      · exact ⟨[], s, .nil s, nofun, hdone⟩

section Whole

variable {readBuf writeBuf : List UInt8}

theorem run_completes (hproper : Proper provider) (hsign : CanSign provider)
    (hroom : tlsRecordOverhead < writeBuf.length)
    (hfits : Fits server readBuf.length writeBuf.length)
    (hnamed : named config provider v = (.ok (), verifier))
    (hrun : Run (step suite kx config provider)
      (start suite readBuf writeBuf v (wireOf server.records ++ more)) es s)
    (hup : forall e, e ∈ es -> e ≠ .transportFailed) :
    Completes server readBuf.length writeBuf.length more v s ∧
      es.length + rank server more s ≤
        rank server more (start suite readBuf writeBuf v (wireOf server.records ++ more)) := by
  have hguarded : Run (Guarded (fun e _ => e ≠ .transportFailed)
      (step suite kx config provider)) _ es s := hrun.to_guarded (fun e _ he => hup e he)
  refine hguarded.bounded (Completes server readBuf.length writeBuf.length more v)
    (rank server more) ?_ ?_
  · intro e s t h hstep
    rcases next_completes hproper hsign hfits hnamed h hstep.2.1 hstep.1 with
      ⟨t', hnext, hcompletes, hrank⟩
    have hsame := hstep.2.2
    rw [hnext] at hsame
    cases hsame
    exact ⟨hcompletes, hrank⟩
  · exact .fresh rfl rfl rfl ⟨⟨rfl, rfl, rfl, rfl⟩, hroom, rfl, rfl⟩ (RecordReader.new_ready _)
      rfl rfl rfl

/-- With an honest server the handshake never fails or gets stuck while the transport is up:
it has always something to wait for, it is over after a bounded number of events, and then
the connection has the keys of the transcript that both sides share, all that the client
owes has been sent, and what follows the flight of the server has not been read. -/
theorem honest_server_opens (hproper : Proper provider) (hsign : CanSign provider)
    (hroom : tlsRecordOverhead < writeBuf.length)
    (hfits : Fits server readBuf.length writeBuf.length)
    (hnamed : named config provider v = (.ok (), verifier))
    (hrun : Run (step suite kx config provider)
      (start suite readBuf writeBuf v (wireOf server.records ++ more)) es s)
    (hup : forall e, e ∈ es -> e ≠ .transportFailed) :
    (forall e, Enabled e s -> exists t, next suite kx config provider e s = .ok t) ∧
      es.length ≤ 2 * (clientWire server).length + (wireOf server.records).length + 1 ∧
      ((s.result = none ∧ exists e, e ≠ .transportFailed ∧ Enabled e s) ∨
        (s.result = some (.ok ()) ∧ s.conn.opened = true ∧ s.conn.recordReader.Ready ∧
          Agreed suite config server.dhe server.transcript s.conn ∧
          s.wire = clientWire server ∧ s.stream = more)) := by
  rcases run_completes hproper hsign hroom hfits hnamed hrun hup with ⟨hcompletes, hlen⟩
  have hfirst : rank server more
      (start suite readBuf writeBuf v (wireOf server.records ++ more)) =
        2 * (clientWire server).length + (wireOf server.records).length + 1 := by
    simp [rank, start, idles]
  refine ⟨?_, by omega, ?_⟩
  · intro e henabled
    by_cases hdown : e = .transportFailed
    · rw [hdown]
      exact ⟨_, rfl⟩
    · rcases next_completes hproper hsign hfits hnamed hcompletes henabled hdown with
        ⟨t, hnext, _⟩
      exact ⟨t, hnext⟩
  · rcases hcompletes.ends with hresult | ⟨hresult, hgoes⟩
    · exact Or.inl ⟨hresult, hcompletes.can_go hresult⟩
    · right
      cases hgoes with
      | opened _ hopened _ hready hagreed hwire hstream =>
          exact ⟨hresult, hopened, hready, hagreed, hwire, hstream⟩

end Whole

end Course

/-! ## A handshake for examples -/

theorem UnsecureProvider.proper (random secret : List UInt8) :
    Proper (UnsecureProvider.new random secret) := by
  constructor
  · intro cert hcert
    cases hcert
  · intro signer msg hsigner
    cases hsigner

theorem UnsecureProvider.canSign (random secret : List UInt8) :
    CanSign (UnsecureProvider.new random secret) := by
  intro hcert
  cases hcert

section Shortest

variable {sigma : Type} {suite : TlsCipherSuite} {kx : KeyExchange} {config : TlsConfig}
  {provider : CryptoProvider sigma} {verifier : sigma} {dhe : List UInt8}
  {readSize writeSize : Nat}

theorem length_finishedContent (hellos transcript : Transcript) :
    (finishedContent suite kx config dhe hellos transcript).length = 4 + suite.hashLen := by
  unfold finishedContent ClientHandshake.bytes ClientHandshake.body KeyTree.finishedMac
  rw [List.length_cons, length_vector, suite.length_hmac]
  omega

theorem server_fits (f : HelloFields)
    (hagrees : f.serverHello.calculateSharedSecret kx provider.secret = some dhe)
    (hread : 48 + f.share.bytes.length ≤ readSize)
    (hflight : 11 + suite.hashLen + suite.tagLen ≤ readSize)
    (hhello : (helloWire suite kx config provider).length ≤ writeSize)
    (hanswer : 10 + suite.hashLen + suite.tagLen ≤ writeSize) :
    Fits (f.server suite kx config provider verifier hagrees) readSize writeSize := by
  refine ⟨?_, hhello, ?_⟩
  · intro rec hrec
    rcases List.mem_cons.mp hrec with hfirst | hrest
    · rw [hfirst]
      show f.message.length ≤ readSize
      rw [f.length_message]
      exact hread
    · rw [List.mem_singleton.mp hrest]
      show (suite.encrypt _ _ _ _).length ≤ readSize
      rw [suite.length_encrypt, f.length_flight]
      exact hflight
  · intro r hr
    rw [List.mem_singleton.mp hr]
    simp only [length_finishedContent]
    unfold headerSize
    omega

end Shortest

def sampleProvider : CryptoProvider Unit :=
  UnsecureProvider.new (List.replicate 32 7) [3]

def sampleFields : HelloFields where
  random := List.replicate 32 1
  cipher := .tlsAes128GcmSha256
  share := { group := .secp256r1, opaqueBytes := List.replicate 65 1 }
  random_length := by decide
  short := by decide

def sampleServer : HonestServer transparent plainExchange .app sampleProvider () :=
  sampleFields.server transparent plainExchange .app sampleProvider () rfl

def sampleReadBuf : List UInt8 :=
  List.replicate 256 0

def sampleWriteBuf : List UInt8 :=
  List.replicate 512 0

theorem sampleWriteBuf_room : tlsRecordOverhead < sampleWriteBuf.length := by
  rw [sampleWriteBuf, List.length_replicate]
  decide

set_option maxRecDepth 4000 in
theorem sampleServer_fits :
    Fits sampleServer sampleReadBuf.length sampleWriteBuf.length := by
  rw [sampleReadBuf, sampleWriteBuf, List.length_replicate, List.length_replicate]
  exact server_fits sampleFields rfl (by decide) (by decide) (by decide) (by decide)

theorem sampleProvider_proper : Proper sampleProvider :=
  UnsecureProvider.proper _ _

theorem sampleProvider_canSign : CanSign sampleProvider :=
  UnsecureProvider.canSign _ _

theorem sampleRun :
    exists es s, Run (step transparent plainExchange .app sampleProvider)
        (start transparent sampleReadBuf sampleWriteBuf ()
          (wireOf sampleServer.records ++ [23])) es s ∧
      (forall e, e ∈ es -> e ≠ .transportFailed) ∧ s.result = some (.ok ()) := by
  have hnone := run_completes sampleProvider_proper sampleProvider_canSign sampleWriteBuf_room
    sampleServer_fits rfl (.nil (start transparent sampleReadBuf sampleWriteBuf ()
      (wireOf sampleServer.records ++ [23]))) nofun
  exact hnone.1.exists_run sampleProvider_proper sampleProvider_canSign sampleServer_fits rfl

theorem honest_server_opens_sample :
    exists es s, Run (step transparent plainExchange .app sampleProvider)
        (start transparent sampleReadBuf sampleWriteBuf ()
          (wireOf sampleServer.records ++ [23])) es s ∧
      s.conn.opened = true ∧ s.wire = clientWire sampleServer ∧ s.stream = [23] := by
  rcases sampleRun with ⟨es, s, hrun, hup, hdone⟩
  have hopens := honest_server_opens sampleProvider_proper sampleProvider_canSign
    sampleWriteBuf_room sampleServer_fits rfl hrun hup
  rcases hopens.2.2 with ⟨hnone, _⟩ | ⟨_, hopened, _, _, hwire, hstream⟩
  · rw [hdone] at hnone
    cases hnone
  · exact ⟨es, s, hrun, hopened, hwire, hstream⟩

/-- What holds of every run that opens the connection, on this one. -/
theorem opens_with_agreement_sample :
    exists es s, Run (step transparent plainExchange .app sampleProvider)
        (start transparent sampleReadBuf sampleWriteBuf ()
          (wireOf sampleServer.records ++ [23])) es s ∧
      exists dhe hellos trafficHash,
        Answered transparent plainExchange .app sampleProvider dhe hellos ∧
        HasFinished transparent (serverSecret transparent .app dhe hellos) hellos trafficHash ∧
        Agreed transparent .app dhe trafficHash s.conn := by
  rcases sampleRun with ⟨es, s, hrun, _, hdone⟩
  rcases opens_with_agreement sampleProvider_proper sampleWriteBuf_room hrun hdone with
    ⟨dhe, hellos, trafficHash, hanswered, hfinished, hagreed, _⟩
  exact ⟨es, s, hrun, dhe, hellos, trafficHash, hanswered, hfinished, hagreed⟩

theorem writes_only_sample :
    exists es s, Run (step transparent plainExchange .app sampleProvider)
        (start transparent sampleReadBuf sampleWriteBuf ()
          (wireOf sampleServer.records ++ [23])) es s ∧
      s.result = some (.ok ()) ∧
      exists text, Written transparent plainExchange .app sampleProvider text ∧
        s.wire <+: text := by
  rcases sampleRun with ⟨es, s, hrun, _, hdone⟩
  exact ⟨es, s, hrun, hdone, writes_only sampleProvider_proper sampleWriteBuf_room hrun⟩

def sampleEmpty : Record :=
  sealedRecord transparent sampleServer.keys.key sampleServer.keys.iv 0 [] (by decide)

set_option maxRecDepth 4000 in
/-- Behind the hello, the record with nothing in it ends the program. -/
theorem open_faults_iff_sample :
    exists s, Run (step transparent plainExchange .app sampleProvider)
        (start transparent sampleReadBuf sampleWriteBuf ()
          (sampleServer.helloRecord.wire ++ sampleEmpty.wire))
        [.called, .wrote 172, .flushed, .arrived 5, .arrived 117, .arrived 5] s ∧
      Dies transparent (.arrived 16) s := by
  have hfound : (([.called, .wrote 172, .flushed, .arrived 5, .arrived 117, .arrived 5] :
      List Event).foldlM (perform transparent plainExchange .app sampleProvider)
        (start transparent sampleReadBuf sampleWriteBuf ()
          (sampleServer.helloRecord.wire ++ sampleEmpty.wire))).any (fun s =>
      ready (.arrived 16) s && s.conn.keySchedule.serverState.state.counter == 0 &&
        (next transparent plainExchange .app sampleProvider (.arrived 16) s).toOption.isNone) =
      true := by
    decide +kernel
  rcases (Option.any_eq_true _ _).mp hfound with ⟨s, hsome, hs⟩
  rw [Bool.and_eq_true, Bool.and_eq_true, ready_iff, beq_iff_eq] at hs
  rcases hs with ⟨⟨henabled, hzero⟩, hnone⟩
  have hrun := Run.of_foldlM perform_step hsome
  refine ⟨s, hrun, (open_faults_iff sampleProvider_proper sampleWriteBuf_room hrun henabled
    ?_).mp ?_⟩
  · rw [hzero]
    decide
  · cases hnext : next transparent plainExchange .app sampleProvider (.arrived 16) s with
    | error f => exact ⟨f, rfl⟩
    | ok t =>
        rw [hnext] at hnone
        cases hnone

end Opening
end EmbeddedTls
end TWA
