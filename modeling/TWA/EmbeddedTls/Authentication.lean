import TWA.EmbeddedTls.HandshakeSteps
import TWA.Foundation.Runs

/-!
# Whom the client talks to

Whatever bytes arrive, and in whatever pieces: a connection is opened only with
somebody who has shown the code over the messages that the client has sent and
read, under a secret that the client shares with the sender of the hello.  Until
then the client writes nothing but its hello, records that are sealed under the
keys of the handshake, and perhaps an alert.
-/

namespace TWA
namespace EmbeddedTls

open Foundation
open Foundation.Exec

namespace Opening

section Stages

variable {sigma : Type} (suite : TlsCipherSuite) (kx : KeyExchange) (config : TlsConfig)
  (provider : CryptoProvider sigma)

structure Finishing (dhe : List UInt8) (hellos : Transcript)
    (flight : List (ClientRecordHeader × List UInt8)) (wire : List UInt8)
    (c : Opening sigma) : Prop where
  answered : Answered suite kx config provider dhe hellos
  keyed : exists opened transcript, Keyed suite config dhe hellos flight opened transcript c
  encrypted : forall r, r ∈ flight -> r.1.isEncrypted = true
  finished : exists trafficHash, c.handshake.trafficHash = some trafficHash ∧
    HasFinished suite (serverSecret suite config dhe hellos) hellos trafficHash
  wire : wire = helloWire suite kx config provider ++
    flightBytes (clientAead suite config dhe hellos) flight

structure Established (dhe : List UInt8) (hellos trafficHash : Transcript)
    (flight : List (ClientRecordHeader × List UInt8)) (wire : List UInt8)
    (c : Opening sigma) : Prop where
  answered : Answered suite kx config provider dhe hellos
  finished : HasFinished suite (serverSecret suite config dhe hellos) hellos trafficHash
  agreed : Agreed suite config dhe trafficHash c
  encrypted : forall r, r ∈ flight -> r.1.isEncrypted = true
  short : flight.length ≤ 3
  wire : wire = helloWire suite kx config provider ++
    flightBytes (clientAead suite config dhe hellos) flight

/-- What holds of the connection and of what has been sent when the client enters a state. -/
inductive Stage (wire : List UInt8) (c : Opening sigma) : State -> Prop where
  | clientHello (hkeys : c.keySchedule = KeySchedule.new suite)
      (hhandshake : c.handshake = Handshake.new) (hwire : wire = []) : Stage wire c .clientHello
  | serverHello
      (h : Greeted suite config provider (helloSent suite kx config provider) c)
      (hwire : wire = helloWire suite kx config provider) : Stage wire c .serverHello
  | serverVerify {dhe : List UInt8} {hellos transcript : Transcript} {opened : Nat}
      (hanswered : Answered suite kx config provider dhe hellos)
      (h : Keyed suite config dhe hellos [] opened transcript c)
      (hbehind : hellos <+: transcript)
      (hwire : wire = helloWire suite kx config provider) : Stage wire c .serverVerify
  | clientCert {dhe : List UInt8} {hellos transcript : Transcript} {opened : Nat}
      (hanswered : Answered suite kx config provider dhe hellos)
      (h : Keyed suite config dhe hellos [] opened transcript c)
      (hfinished : HasFinished suite (serverSecret suite config dhe hellos) hellos transcript)
      (hrequest : c.handshake.certificateRequest.isSome = true)
      (hwire : wire = helloWire suite kx config provider) : Stage wire c .clientCert
  | clientCertVerify {dhe : List UInt8} {hellos : Transcript}
      {flight : List (ClientRecordHeader × List UInt8)}
      (h : Finishing suite kx config provider dhe hellos flight wire c)
      (hflight : flight.length ≤ 1) : Stage wire c .clientCertVerify
  | clientFinished {dhe : List UInt8} {hellos : Transcript}
      {flight : List (ClientRecordHeader × List UInt8)}
      (h : Finishing suite kx config provider dhe hellos flight wire c)
      (hflight : flight.length ≤ 2) : Stage wire c .clientFinished
  | applicationData {dhe : List UInt8} {hellos trafficHash : Transcript}
      {flight : List (ClientRecordHeader × List UInt8)}
      (h : Established suite kx config provider dhe hellos trafficHash flight wire c) :
      Stage wire c .applicationData

/-- What the client may have written: nothing, its hello, and behind it records that are
sealed with counters from zero on, or an alert in the clear. -/
inductive Written : List UInt8 -> Prop where
  | nothing : Written []
  | hello : Written (helloWire suite kx config provider)
  | aborted (a : Alert) :
      Written (helloWire suite kx config provider ++ clearRecord (.alert false) a.bytes)
  | sealed {dhe : List UInt8} {hellos : Transcript}
      (hanswered : Answered suite kx config provider dhe hellos)
      (flight : List (ClientRecordHeader × List UInt8)) (hshort : flight.length ≤ 3)
      (hencrypted : forall r, r ∈ flight -> r.1.isEncrypted = true) :
      Written (helloWire suite kx config provider ++
        flightBytes (clientAead suite config dhe hellos) flight)

def Promise (wire : List UInt8) (c : Opening sigma) : After -> Prop
  | .goesOn (.ok state) => c.Rested ∧ Stage suite kx config provider wire c state
  | .goesOn (.error _) => Written suite kx config provider wire
  | .finalizes => c.Rested ∧ exists dhe hellos flight,
      Finishing suite kx config provider dhe hellos flight wire c ∧ flight.length ≤ 3

inductive Outcome (wire : List UInt8) : Progress × Opening sigma -> Prop where
  | reading (state : State) (a : RecordReader.Await) (c : Opening sigma)
      (hstate : state = .serverHello ∨ state = .serverVerify)
      (hstage : Stage suite kx config provider wire c state)
      (hfree : c.recordWriteBuf.Free)
      (hroom : tlsRecordOverhead < c.recordWriteBuf.buffer.length)
      (hsound : c.recordReader.Sound) (hawait : RecordReader.AwaitSound c.recordReader a) :
      Outcome wire (.awaits (.reading state a), c)
  | sending (rest : List UInt8) (after : After) (c : Opening sigma)
      (hcount : c.keySchedule.clientState.state.counter + 1 < UInt64.size)
      (hpromise : Promise suite kx config provider (wire ++ rest) c.counted after) :
      Outcome wire (.awaits (.sending rest after), c)
  | flushing (after : After) (c : Opening sigma)
      (hpromise : Promise suite kx config provider wire c after) :
      Outcome wire (.awaits (.flushing after), c)
  | failed (e : ProtocolError) (c : Opening sigma)
      (hwritten : Written suite kx config provider wire) :
      Outcome wire (.returned (.error e), c)
  | opened {dhe : List UInt8} {hellos trafficHash : Transcript}
      {flight : List (ClientRecordHeader × List UInt8)} (c : Opening sigma)
      (h : Established suite kx config provider dhe hellos trafficHash flight wire c)
      (hopened : c.opened = true) (hrested : c.Rested) :
      Outcome wire (.returned (.ok ()), c)

end Stages

section Stretches

variable {sigma : Type} {suite : TlsCipherSuite} {kx : KeyExchange} {config : TlsConfig}
  {provider : CryptoProvider sigma} {c : Opening sigma} {wire : List UInt8}

theorem Finishing.written {dhe : List UInt8} {hellos : Transcript}
    {flight : List (ClientRecordHeader × List UInt8)}
    (h : Finishing suite kx config provider dhe hellos flight wire c)
    (hshort : flight.length ≤ 3) : Written suite kx config provider wire := by
  rw [h.wire]
  exact .sealed h.answered flight hshort h.encrypted

theorem Stage.written {state : State} (h : Stage suite kx config provider wire c state) :
    Written suite kx config provider wire := by
  cases h with
  | clientHello _ _ hwire =>
      rw [hwire]
      exact .nothing
  | serverHello _ hwire =>
      rw [hwire]
      exact .hello
  | serverVerify _ _ _ hwire =>
      rw [hwire]
      exact .hello
  | clientCert _ _ _ _ hwire =>
      rw [hwire]
      exact .hello
  | clientCertVerify h hflight => exact h.written (by omega)
  | clientFinished h hflight => exact h.written (by omega)
  | applicationData h =>
      rw [h.wire]
      exact .sealed h.answered _ h.short h.encrypted

theorem Stage.with_reader {state : State} (h : Stage suite kx config provider wire c state)
    (r : RecordReader) :
    Stage suite kx config provider wire { c with recordReader := r } state := by
  cases h with
  | clientHello hkeys hhandshake hwire => exact .clientHello hkeys hhandshake hwire
  | serverHello h hwire => exact .serverHello ⟨h.shared, h.key, h.transcript, h.handshake⟩ hwire
  | serverVerify hanswered h hbehind hwire =>
      exact .serverVerify hanswered ⟨h.shared, h.client, h.server⟩ hbehind hwire
  | clientCert hanswered h hfinished hrequest hwire =>
      exact .clientCert hanswered ⟨h.shared, h.client, h.server⟩ hfinished hrequest hwire
  | clientCertVerify h hflight =>
      rcases h.keyed with ⟨opened, transcript, hkeyed⟩
      exact .clientCertVerify ⟨h.answered, ⟨opened, transcript, hkeyed.shared, hkeyed.client,
        hkeyed.server⟩, h.encrypted, h.finished, h.wire⟩ hflight
  | clientFinished h hflight =>
      rcases h.keyed with ⟨opened, transcript, hkeyed⟩
      exact .clientFinished ⟨h.answered, ⟨opened, transcript, hkeyed.shared, hkeyed.client,
        hkeyed.server⟩, h.encrypted, h.finished, h.wire⟩ hflight
  | applicationData h =>
      exact .applicationData ⟨h.answered, h.finished, ⟨h.agreed.client, h.agreed.server⟩,
        h.encrypted, h.short, h.wire⟩

theorem respond_outcome {tx : List UInt8} {after : After}
    (hcount : c.keySchedule.clientState.state.counter + 1 < UInt64.size)
    (hpromise : Promise suite kx config provider (wire ++ tx) c.counted after) :
    exists result, respond tx after c = .ok result ∧
      Outcome suite kx config provider wire result := by
  unfold respond
  split
  · rename_i hnil
    rw [hnil, List.append_nil] at hpromise
    rcases incrementCounter_cases c.keySchedule.clientState.state with ⟨hnext, _⟩ | ⟨_, hfull⟩
    · rw [hnext, ok_bind]
      exact ⟨_, rfl, .flushing after _ hpromise⟩
    · exact absurd hcount (Nat.not_lt_of_le hfull)
  · exact ⟨_, rfl, .sending tx after c hcount hpromise⟩

theorem Sealed.count {dhe : List UInt8} {hellos transcript : Transcript}
    {flight : List (ClientRecordHeader × List UInt8)} {opened : Nat} {c' : Opening sigma}
    (h : Sealed suite config dhe hellos flight opened transcript c c') :
    c'.keySchedule.clientState.state.counter + 1 = flight.length := by
  have hclient := congrArg (fun k => k.state.counter) h.keyed.client
  exact hclient

theorem Sealed.finishing {dhe : List UInt8} {hellos transcript : Transcript}
    {flight : List (ClientRecordHeader × List UInt8)} {opened : Nat} {c' : Opening sigma}
    {r : ClientRecordHeader × List UInt8}
    (h : Sealed suite config dhe hellos (flight ++ [r]) opened transcript c c')
    (hanswered : Answered suite kx config provider dhe hellos)
    (hencrypted : forall r, r ∈ flight -> r.1.isEncrypted = true)
    (hr : r.1.isEncrypted = true)
    (hwire : wire = helloWire suite kx config provider ++
      flightBytes (clientAead suite config dhe hellos) flight)
    (hfinished : exists trafficHash, c'.handshake.trafficHash = some trafficHash ∧
      HasFinished suite (serverSecret suite config dhe hellos) hellos trafficHash) :
    Finishing suite kx config provider dhe hellos (flight ++ [r])
      (wire ++ nextSealed suite config dhe hellos flight r) c'.counted := by
  refine ⟨hanswered, ⟨opened, transcript, h.keyed⟩, ?_, hfinished, ?_⟩
  · intro x hx
    rcases List.mem_append.mp hx with hold | hnew
    · exact hencrypted x hold
    · rw [List.mem_singleton.mp hnew]
      exact hr
  · rw [hwire, flightBytes_concat, List.append_assoc]
    rfl

theorem Rested.counted (h : c.Rested) : c.counted.Rested :=
  ⟨h.free, h.room, h.ready⟩

theorem openLoop_outcome (hproper : Proper provider) (fuel : Nat) {state : State}
    (hrested : c.Rested) (h : Stage suite kx config provider wire c state) :
    exists result, openLoop suite kx config provider (fuel + 1) state c = .ok result ∧
      Outcome suite kx config provider wire result := by
  have hwritten := h.written
  cases h with
  | clientHello hkeys hhandshake hwire =>
      rcases clientHello_spec kx config provider hrested hkeys hhandshake with ⟨hfits, hfull⟩
      unfold openLoop
      by_cases hroom : (helloWire suite kx config provider).length ≤
          c.recordWriteBuf.buffer.length
      · rcases hfits hroom with ⟨c', hrun, hrested', _, hzero, hgreeted, _, _⟩
        rw [hrun, ok_bind]
        refine respond_outcome (by rw [hzero]; decide) ⟨hrested'.counted, ?_⟩
        rw [hwire]
        exact .serverHello ⟨hgreeted.shared, hgreeted.key, hgreeted.transcript,
          hgreeted.handshake⟩ rfl
      · rcases hfull hroom with ⟨e, c', hrun⟩
        rw [hrun, ok_bind]
        exact ⟨_, rfl, .failed e c' hwritten⟩
  | serverHello h hwire =>
      unfold openLoop
      rw [hrested.ready.read_eq, ok_bind]
      have hready := hrested.ready
      refine ⟨_, rfl, .reading _ _ _ (Or.inl rfl) (.serverHello h hwire) hrested.free hrested.room
        hready.sound ⟨hready.bodyActive, ?_⟩⟩
      rw [hready.hdrHave]
      decide
  | serverVerify hanswered h hbehind hwire =>
      unfold openLoop
      rw [hrested.ready.read_eq, ok_bind]
      have hready := hrested.ready
      refine ⟨_, rfl, .reading _ _ _ (Or.inr rfl) (.serverVerify hanswered h hbehind hwire)
        hrested.free hrested.room hready.sound ⟨hready.bodyActive, ?_⟩⟩
      rw [hready.hdrHave]
      decide
  | clientCert hanswered h hfinished hrequest hwire =>
      rename_i dhe hellos transcript opened
      rcases Option.isSome_iff_exists.mp hrequest with ⟨requestContext, hcontext⟩
      rcases clientCert_spec kx hproper hrested h hcontext with ⟨hfits, hfull⟩
      unfold openLoop
      by_cases hroom : (nextSealed suite config dhe hellos []
          (.handshake true, certContent suite kx provider requestContext)).length ≤
            c.recordWriteBuf.buffer.length
      · rcases hfits hroom with ⟨c', hrun, hsealed, hhandshake⟩
        have hnext := hsealed.finishing hanswered nofun rfl
          (hwire.trans (List.append_nil _).symm)
          ⟨transcript, by rw [hhandshake], hfinished⟩
        rw [hrun, ok_bind]
        refine respond_outcome ?_ ⟨hsealed.rested.counted, ?_⟩
        · rw [hsealed.count]
          exact Nat.lt_of_le_of_lt (Nat.le_refl 1) (by decide)
        · unfold stateAfterCert
          split
          · exact .clientCertVerify hnext (Nat.le_refl 1)
          · exact .clientFinished hnext (Nat.le_succ 1)
      · rcases hfull hroom with ⟨e, c', hrun⟩
        rw [hrun, ok_bind]
        exact ⟨_, rfl, .failed e c' hwritten⟩
  | clientCertVerify h hflight =>
      rename_i dhe hellos flight
      rcases h.keyed with ⟨opened, transcript, hkeyed⟩
      rcases clientCertVerify_spec kx hproper hrested hkeyed with
        ⟨record, answer, hsigned, hfits, hfull⟩
      unfold openLoop
      by_cases hroom : (nextSealed suite config dhe hellos flight
          (record.header, record.payload suite kx)).length ≤ c.recordWriteBuf.buffer.length
      · rcases hfits hroom with ⟨c', hrun, hsealed, hhandshake⟩
        have hencrypted : record.header.isEncrypted = true := by
          cases hsigned <;> rfl
        have hnext := hsealed.finishing h.answered h.encrypted hencrypted h.wire
          (by rw [hhandshake]; exact h.finished)
        have hlen : (flight ++ [(record.header, record.payload suite kx)]).length ≤ 2 := by
          rw [List.length_append, List.length_singleton]
          omega
        rw [hrun, ok_bind]
        refine respond_outcome ?_ ?_
        · rw [hsealed.count]
          exact Nat.lt_of_le_of_lt hlen (by decide)
        · cases hsigned with
          | verify signer _ verify _ _ =>
              exact ⟨hsealed.rested.counted, .clientFinished hnext hlen⟩
          | alert e _ => exact hnext.written (Nat.le_succ_of_le hlen)
      · rcases hfull hroom with ⟨e, c', hrun⟩
        rw [hrun, ok_bind]
        exact ⟨_, rfl, .failed e c' hwritten⟩
  | clientFinished h hflight =>
      rename_i dhe hellos flight
      rcases h.keyed with ⟨opened, transcript, hkeyed⟩
      rcases clientFinished_spec kx hrested hkeyed with ⟨hfits, hfull⟩
      unfold openLoop
      by_cases hroom : (nextSealed suite config dhe hellos flight (.handshake true,
          finishedContent suite kx config dhe hellos transcript)).length ≤
            c.recordWriteBuf.buffer.length
      · rcases hfits hroom with ⟨c', hrun, hsealed, hhandshake⟩
        have hnext := hsealed.finishing h.answered h.encrypted rfl h.wire
          (by rw [hhandshake]; exact h.finished)
        have hlen : (flight ++ [(ClientRecordHeader.handshake true,
            finishedContent suite kx config dhe hellos transcript)]).length ≤ 3 := by
          rw [List.length_append, List.length_singleton]
          omega
        rw [hrun, ok_bind]
        refine respond_outcome ?_ ⟨hsealed.rested.counted, dhe, hellos, _, hnext, hlen⟩
        rw [hsealed.count]
        exact Nat.lt_of_le_of_lt hlen (by decide)
      · rcases hfull hroom with ⟨e, c', hrun⟩
        rw [hrun, ok_bind]
        exact ⟨_, rfl, .failed e c' hwritten⟩
  | applicationData h =>
      unfold openLoop
      refine ⟨_, rfl, .opened _ ⟨h.answered, h.finished, ⟨h.agreed.client, h.agreed.server⟩,
        h.encrypted, h.short, h.wire⟩ rfl ⟨hrested.free, hrested.room, hrested.ready⟩⟩

/-! ## A record of the server -/

variable {header : RecordHeader} {body : List UInt8}

theorem processRecord_serverHello (hrested : c.Rested)
    (h : Greeted suite config provider (helloSent suite kx config provider) c)
    (hlen : header.contentLength = body.length)
    (htype : ContentType.of (header.header.getD 0 0) ≠ none)
    (hle : header.contentLength ≤ c.recordReader.decoded) :
    exists r c', processRecord suite kx provider .serverHello header body c = .ok (r, c') ∧
      ((exists e, r = .error e) ∨
        (exists e, r = .ok (.error e) ∧
          forall level description, e ≠ .abortHandshake level description) ∨
        (r = .ok (.ok .serverVerify) ∧ c'.Rested ∧
          Stage suite kx config provider (helloWire suite kx config provider) c'
            .serverVerify)) := by
  unfold processRecord
  rw [sub_of_le hle, ok_bind]
  have hcases := @decode_cases suite header body hlen htype
    (c.recordReader.decoded - header.contentLength) c.keySchedule.serverState.transcript
  rcases hcases with ⟨⟨r, transcript⟩, hrun, hdecoded⟩
  rw [hrun, ok_bind]
  cases r with
  | error e => exact ⟨_, _, rfl, Or.inl ⟨e, rfl⟩⟩
  | ok record =>
      simp only [if_true]
      rcases processServerHello_spec kx (h.digested transcript) record with
        ⟨e, c', hprocess, habort⟩ |
        ⟨serverHello, dhe, c', hrecord, hshared, hprocess, hkeyed, _, hreader, hbuffer, _⟩
      · rw [hprocess]
        exact ⟨_, _, rfl, Or.inr (Or.inl ⟨e, rfl, habort⟩)⟩
      · rw [hprocess]
        refine ⟨_, _, rfl, Or.inr (Or.inr ⟨rfl, ⟨?_, ?_, ?_⟩, ?_⟩)⟩
        · rw [hbuffer]
          exact hrested.free
        · rw [hbuffer]
          exact hrested.room
        · rw [hreader]
          exact hrested.ready
        · cases hdecoded with
          | changeCipherSpec _ => cases hrecord
          | alert a _ => cases hrecord
          | applicationData _ => cases hrecord
          | handshake message bytes hmessage _ =>
              have hsame : message = .serverHello serverHello := by
                cases message with
                | serverHello _ => exact ServerRecord.handshake.inj hrecord
                | finished f => cases hrecord
                | encryptedExtensions => cases hrecord
                | newSessionTicket => cases hrecord
                | certificate cert => cases hrecord
                | certificateRequest request => cases hrecord
                | certificateVerify verify => cases hrecord
              rw [hsame] at hmessage
              rw [h.transcript] at hkeyed
              exact .serverVerify ⟨serverHello, bytes, rfl, hmessage, hshared⟩ hkeyed
                (List.prefix_refl _) rfl

/-- The record is sealed under the keys of the handshake, and there is nothing in it. -/
def Void (suite : TlsCipherSuite) (header : RecordHeader) (body : List UInt8)
    (c : Opening sigma) : Prop :=
  ContentType.of (header.header.getD 0 0) = some .applicationData ∧
    suite.decrypt c.keySchedule.serverState.state.key c.keySchedule.serverState.state.nonce
      header.header body = some []

theorem processServerVerify_eq {record : ServerRecord} {r : Except ProtocolError Unit}
    {plain : List UInt8} {keys : ReadKeySchedule} {s : Verifying sigma}
    (hrun : decryptRecord suite (verifyHandshake suite provider) record
      (c.keySchedule.serverState,
        { state := .serverVerify, handshake := c.handshake, verifier := c.verifier }) =
      .ok (r, plain, keys, s)) :
    processServerVerify suite provider record c =
      .ok (r.map (fun _ => s.state), plain,
        { c with
          keySchedule := { c.keySchedule with serverState := keys }
          handshake := s.handshake
          verifier := s.verifier }) := by
  unfold processServerVerify
  rw [hrun, ok_bind]
  cases r <;> rfl

def Verified (suite : TlsCipherSuite) (config : TlsConfig) (dhe : List UInt8)
    (hellos : Transcript) (state : State) (c : Opening sigma) : Prop :=
  exists opened, Verifies suite config dhe hellos opened
    (c.keySchedule.serverState,
      { state := state, handshake := c.handshake, verifier := c.verifier })

variable (kx config) in
theorem processRecord_of_decrypt (dhe : List UInt8) (hellos : Transcript)
    {transcript : Transcript} {record : ServerRecord} {r : Except ProtocolError Unit}
    {plain : List UInt8} {keys : ReadKeySchedule} {s : Verifying sigma} (hrested : c.Rested)
    (hle : header.contentLength ≤ c.recordReader.decoded)
    (hfit : plain.length ≤ header.contentLength)
    (hdecode : ServerRecord.decode suite header (c.recordReader.decoded - header.contentLength)
      body c.keySchedule.serverState.transcript = .ok (.ok record, transcript))
    (hrun : decryptRecord suite (verifyHandshake suite provider) record
      ({ c.keySchedule.serverState with transcript := transcript },
        { state := .serverVerify, handshake := c.handshake, verifier := c.verifier }) =
      .ok (r, plain, keys, s))
    (hkept : r = .ok () -> exists opened,
      Verifies suite config dhe hellos opened (keys, s)) :
    exists r' c', processRecord suite kx provider .serverVerify header body c = .ok (r', c') ∧
      c'.Rested ∧ c'.keySchedule.clientState = c.keySchedule.clientState ∧
      c'.keySchedule.shared = c.keySchedule.shared ∧
      forall state, r' = .ok (.ok state) -> Verified suite config dhe hellos state c' := by
  have hroom : c.recordReader.decoded - header.contentLength + plain.length ≤
      c.recordReader.decoded := by
    omega
  have hverify := processServerVerify_eq (c := { c with
    keySchedule := c.keySchedule.replaceTranscriptHash transcript }) hrun
  unfold processRecord
  rw [sub_of_le hle, ok_bind, hdecode, ok_bind]
  simp only [reduceCtorEq, if_false]
  rw [hverify, ok_bind]
  refine ⟨_, _, rfl, ⟨hrested.free, hrested.room, (hrested.ready.spliced hroom).1⟩, rfl, rfl, ?_⟩
  intro state hstate
  cases r with
  | error e => cases hstate
  | ok _ =>
      cases hstate
      exact hkept rfl

variable (kx provider) in
/-- A record of the flight of the server is handled, or the program ends: just when there is
nothing in the record, or when the records cannot be counted any more. -/
theorem processRecord_serverVerify {dhe : List UInt8} {hellos transcript : Transcript}
    {opened : Nat} (hrested : c.Rested)
    (h : Keyed suite config dhe hellos [] opened transcript c) (hbehind : hellos <+: transcript)
    (hlen : header.contentLength = body.length)
    (htype : ContentType.of (header.header.getD 0 0) ≠ none)
    (hle : header.contentLength ≤ c.recordReader.decoded) :
    (exists r c', processRecord suite kx provider .serverVerify header body c = .ok (r, c') ∧
      ¬ Void suite header body c ∧ c'.Rested ∧
      c'.keySchedule.clientState = c.keySchedule.clientState ∧
      c'.keySchedule.shared = c.keySchedule.shared ∧
      forall state, r = .ok (.ok state) -> Verified suite config dhe hellos state c') ∨
    (processRecord suite kx provider .serverVerify header body c = .error .unwrapNone ∧
      (Void suite header body c ∨ UInt64.size ≤ opened + 1)) := by
  have hkeeps := verifyHandshake_keeps suite config provider dhe hellos opened
  have hkeepsOther := verifyHandshake_keepsOther suite config provider dhe hellos opened
  have hverifies : Verifies suite config dhe hellos opened (c.keySchedule.serverState,
      { state := .serverVerify, handshake := c.handshake, verifier := c.verifier }) := by
    rw [h.server]
    exact ⟨rfl, hbehind, .notYet rfl⟩
  have hnotVoid : ContentType.of (header.header.getD 0 0) ≠ some .applicationData ->
      ¬ Void suite header body c := fun hother hvoid => hother hvoid.1
  rcases decode_cases hlen htype (c.recordReader.decoded - header.contentLength)
    c.keySchedule.serverState.transcript with ⟨result, hdecode, hdecoded⟩
  cases hdecoded with
  | refused e hother =>
      left
      unfold processRecord
      rw [sub_of_le hle, ok_bind, hdecode, ok_bind]
      exact ⟨_, _, rfl, hnotVoid hother, ⟨hrested.free, hrested.room, hrested.ready⟩, rfl, rfl,
        nofun⟩
  | changeCipherSpec hccs =>
      left
      have hother : ContentType.of (header.header.getD 0 0) ≠ some .applicationData := by
        rw [hccs]
        nofun
      rcases processRecord_of_decrypt kx config dhe hellos hrested hle (Nat.zero_le _)
        hdecode rfl (fun _ => ⟨opened, hverifies⟩) with ⟨r, c', hrun, hrest⟩
      exact ⟨r, c', hrun, hnotVoid hother, hrest⟩
  | alert a hother =>
      left
      rcases processRecord_of_decrypt kx config dhe hellos hrested hle (Nat.zero_le _)
        hdecode rfl nofun with ⟨r, c', hrun, hrest⟩
      exact ⟨r, c', hrun, hnotVoid hother, hrest⟩
  | handshake message bytes hmessage hother =>
      left
      rcases hkeeps message bytes _ _ hmessage hverifies with ⟨r, ⟨keys, s⟩, hcall, hkept⟩
      have hdecrypt : decryptRecord suite (verifyHandshake suite provider)
          (.handshake (message.withHash suite c.keySchedule.serverState.transcript))
          ({ c.keySchedule.serverState with
              transcript := c.keySchedule.serverState.transcript ++ bytes },
            { state := .serverVerify, handshake := c.handshake, verifier := c.verifier }) =
          .ok (r, [], keys, s) := by
        show (verifyHandshake suite provider _ _ >>= _) = _
        rw [hcall]
        rfl
      rcases processRecord_of_decrypt kx config dhe hellos hrested hle (Nat.zero_le _)
        hdecode hdecrypt (fun hr => ⟨opened, hkept hr⟩) with ⟨r', c', hrun, hrest⟩
      exact ⟨r', c', hrun, hnotVoid hother, hrest⟩
  | applicationData happ =>
      rcases decryptRecord_keeps hkeeps hkeepsOther { header := header, start :=
        c.recordReader.decoded - header.contentLength, data := body } hverifies with
        ⟨r, plain, ⟨keys, s⟩, hdecrypt, hfit, hsome, hkept⟩ | ⟨hdecrypt, hwhy⟩
      · left
        have hnext : r = .ok () -> exists opened,
            Verifies suite config dhe hellos opened (keys, s) := by
          intro hr
          rcases hkept hr with ⟨before, hbefore, hsame⟩
          rcases Prod.mk.inj hsame with ⟨rfl, rfl⟩
          refine ⟨opened + 1, ?_, hbefore.behind, hbefore.verdict⟩
          have hkeys := hbefore.keys
          unfold ReadKeySchedule.counted
          simp only [hkeys]
        rcases processRecord_of_decrypt kx config dhe hellos hrested hle
          (by rw [hlen]; exact hfit) hdecode hdecrypt hnext with ⟨r', c', hrun, hrest⟩
        exact ⟨r', c', hrun, fun hvoid => hsome hvoid.2, hrest⟩
      · right
        have hverify : processServerVerify suite provider
            (.applicationData { header := header, start :=
              c.recordReader.decoded - header.contentLength, data := body })
            { c with
              keySchedule := c.keySchedule.replaceTranscriptHash
                c.keySchedule.serverState.transcript } = .error .unwrapNone := by
          show (decryptRecord suite _ _ (c.keySchedule.serverState, _) >>= _) = _
          rw [hdecrypt]
          rfl
        unfold processRecord
        rw [sub_of_le hle, ok_bind, hdecode, ok_bind]
        simp only [reduceCtorEq, if_false, hverify, error_bind, true_and]
        rcases hwhy with hempty | ⟨before, hbefore, hfull⟩
        · exact Or.inl ⟨happ, hempty⟩
        · right
          rw [hbefore.keys] at hfull
          exact hfull

theorem Verified.stage {dhe : List UInt8} {hellos : Transcript} {state : State}
    (h : Verified suite config dhe hellos state c)
    (hanswered : Answered suite kx config provider dhe hellos)
    (hshared : c.keySchedule.shared = KeyTree.sharedAt suite (handshakeSecret suite config dhe))
    (hclient : c.keySchedule.clientState =
      { state := { clientTraffic suite config dhe hellos with counter := 0 }
        binderKey := some (binderKey suite config) }) :
    Stage suite kx config provider (helloWire suite kx config provider) c state := by
  rcases h with ⟨opened, hkeys, hbehind, hverdict⟩
  have hkeyed : Keyed suite config dhe hellos [] opened
      c.keySchedule.serverState.transcript c := by
    refine ⟨hshared, hclient, ?_⟩
    rw [← hkeys]
  cases hverdict with
  | notYet hstate =>
      have hsame : state = .serverVerify := hstate
      rw [hsame]
      exact .serverVerify hanswered hkeyed hbehind rfl
  | requested hstate hfinished hrequest =>
      have hsame : state = .clientCert := hstate
      rw [hsame]
      exact .clientCert hanswered hkeyed hfinished hrequest rfl
  | finished hstate trafficHash htraffic hfinished =>
      have hsame : state = .clientFinished := hstate
      rw [hsame]
      refine .clientFinished ⟨hanswered, ⟨opened, _, hkeyed⟩, nofun,
        ⟨trafficHash, htraffic, hfinished⟩, ?_⟩ (Nat.zero_le 2)
      exact (List.append_nil _).symm

theorem Promise.written {after : After} (h : Promise suite kx config provider wire c after) :
    Written suite kx config provider wire := by
  cases after with
  | goesOn result =>
      cases result with
      | error e => exact h
      | ok state => exact h.2.written
  | finalizes =>
      rcases h with ⟨_, dhe, hellos, flight, hfinishing, hshort⟩
      exact hfinishing.written hshort

theorem abort_outcome (k : State -> Opening sigma -> Exec (Progress × Opening sigma))
    (hrested : c.Rested)
    (hkey : c.keySchedule.clientState.binderKey = some (binderKey suite config))
    (hcount : c.keySchedule.clientState.state.counter + 1 < UInt64.size) (level : AlertLevel)
    (description : AlertDescription) :
    exists result, handleProcessingError suite kx k (.error (.abortHandshake level description)) c =
        .ok result ∧
      Outcome suite kx config provider (helloWire suite kx config provider) result := by
  let alert : ClientRecord := .alert { level := level, description := description } false
  have hencodable : alert.Encodable := True.intro
  rcases writeRecord_spec kx hrested hkey hencodable with ⟨hfits, hfull⟩
  unfold handleProcessingError
  simp only
  by_cases hroom : (sentRecord suite kx config alert c).length ≤
      c.recordWriteBuf.buffer.length
  · rcases hfits hroom with ⟨w, hrun, _, _⟩
    rw [hrun, ok_bind]
    exact respond_outcome hcount (.aborted { level := level, description := description })
  · rcases hfull hroom with ⟨e, c', hrun⟩
    rw [hrun, ok_bind]
    exact ⟨_, rfl, .failed e c' .hello⟩

/-- What the reader hands over is a record of the flight of the server with nothing in it. -/
def Empties (suite : TlsCipherSuite) (state : State)
    (progress : RecordReader.Progress × RecordReader) (c : Opening sigma) : Prop :=
  exists header body r, progress = (.ready header body, r) ∧ state = .serverVerify ∧
    Void suite header body c

/-- The records of the server cannot be counted any more. -/
def Full (c : Opening sigma) : Prop :=
  UInt64.size ≤ c.keySchedule.serverState.state.counter + 1

theorem recordRead_outcome {k : State -> Opening sigma -> Exec (Progress × Opening sigma)}
    (hk : forall state c, c.Rested -> Stage suite kx config provider wire c state ->
      exists result, k state c = .ok result ∧
        Outcome suite kx config provider wire result)
    {state : State} (hstate : state = .serverHello ∨ state = .serverVerify)
    (h : Stage suite kx config provider wire c state) (hfree : c.recordWriteBuf.Free)
    (hroom : tlsRecordOverhead < c.recordWriteBuf.buffer.length) {size : Nat}
    {progress : RecordReader.Progress × RecordReader}
    (hlanded : RecordReader.Landed size progress) :
    (exists result, recordRead suite kx provider k state progress c = .ok result ∧
      Outcome suite kx config provider wire result ∧ ¬ Empties suite state progress c) ∨
    (recordRead suite kx provider k state progress c = .error .unwrapNone ∧
      (Empties suite state progress c ∨ c.Full)) := by
  have hwritten := h.written
  cases hlanded with
  | awaits a r hsize hsound hawait =>
      left
      refine ⟨_, rfl, .reading state a _ hstate (h.with_reader r) hfree hroom hsound hawait, ?_⟩
      rintro ⟨header, body, r', heq, _⟩
      cases heq
  | failed e r hsize hsound =>
      left
      refine ⟨_, rfl, .failed _ _ hwritten, ?_⟩
      rintro ⟨header, body, r', heq, _⟩
      cases heq
  | ready header body r hsize hready htype hlen hle hbody =>
      have hrested : ({ c with recordReader := r } : Opening sigma).Rested :=
        ⟨hfree, hroom, hready⟩
      unfold recordRead
      cases h.with_reader r with
      | clientHello _ _ _ => rcases hstate with heq | heq <;> cases heq
      | clientCert _ _ _ _ _ => rcases hstate with heq | heq <;> cases heq
      | clientCertVerify _ _ => rcases hstate with heq | heq <;> cases heq
      | clientFinished _ _ => rcases hstate with heq | heq <;> cases heq
      | applicationData _ => rcases hstate with heq | heq <;> cases heq
      | serverHello hgreeted hwire =>
          left
          have hnot : ¬ Empties suite .serverHello (.ready header body, r) c := by
            rintro ⟨_, _, _, _, heq, _⟩
            cases heq
          rcases processRecord_serverHello hrested hgreeted hlen htype hle with
            ⟨r', c', hrun, ⟨e, rfl⟩ | ⟨e, rfl, habort⟩ | ⟨rfl, hrested', hstage⟩⟩
          · simp only [hrun, ok_bind]
            exact ⟨_, rfl, .failed e c' hwritten, hnot⟩
          · simp only [hrun, ok_bind]
            have hplain : handleProcessingError suite kx k (.error e) c' =
                .ok (.returned (.error e), c') := by
              cases e with
              | abortHandshake level description => exact absurd rfl (habort level description)
              | _ => rfl
            rw [hplain]
            exact ⟨_, rfl, .failed e c' hwritten, hnot⟩
          · simp only [hrun, ok_bind]
            rw [← hwire] at hstage
            rcases hk _ c' hrested' hstage with ⟨result, hnext, houtcome⟩
            exact ⟨result, hnext, houtcome, hnot⟩
      | serverVerify hanswered hkeyed hbehind hwire =>
          rename_i dhe hellos transcript opened
          rcases processRecord_serverVerify kx provider hrested hkeyed hbehind hlen htype hle with
            ⟨r', c', hrun, hvoid, hrested', hclient, hshared, hverified⟩ | ⟨hrun, hwhy⟩
          · left
            have hnot : ¬ Empties suite .serverVerify (.ready header body, r) c := by
              rintro ⟨header', body', r'', heq, _, hvoid'⟩
              cases heq
              exact hvoid hvoid'
            rw [hkeyed.client] at hclient
            rw [hkeyed.shared] at hshared
            simp only [hrun, ok_bind]
            cases r' with
            | error e => exact ⟨_, rfl, .failed e c' hwritten, hnot⟩
            | ok result =>
                cases result with
                | ok state =>
                    have hstage := (hverified state rfl).stage hanswered hshared hclient
                    rw [← hwire] at hstage
                    rcases hk _ c' hrested' hstage with ⟨result, hnext, houtcome⟩
                    exact ⟨result, hnext, houtcome, hnot⟩
                | error e =>
                    cases e with
                    | abortHandshake level description =>
                        have hkey : c'.keySchedule.clientState.binderKey =
                            some (binderKey suite config) := by
                          rw [hclient]
                        have hzero : c'.keySchedule.clientState.state.counter + 1 <
                            UInt64.size := by
                          rw [hclient]
                          show 0 + 1 < UInt64.size
                          decide
                        rw [hwire]
                        rcases abort_outcome k hrested' hkey hzero level description with
                          ⟨result, hnext, houtcome⟩
                        exact ⟨result, hnext, houtcome, hnot⟩
                    | _ => exact ⟨_, rfl, .failed _ c' hwritten, hnot⟩
          · right
            simp only [hrun, error_bind, true_and]
            rcases hwhy with hvoid | hfull
            · exact Or.inl ⟨header, body, r, rfl, rfl, hvoid⟩
            · right
              have hserver : c.keySchedule.serverState = _ := hkeyed.server
              unfold Full
              rw [hserver]
              exact hfull

theorem flushed_outcome (hproper : Proper provider) {after : After}
    (h : Promise suite kx config provider wire c after) :
    exists result, flushed suite kx config provider after c = .ok result ∧
      Outcome suite kx config provider wire result := by
  unfold flushed
  cases after with
  | goesOn result =>
      cases result with
      | error e => exact ⟨_, rfl, .failed e c h⟩
      | ok state => exact openLoop_outcome hproper 1 h.1 h.2
  | finalizes =>
      rcases h with ⟨hrested, dhe, hellos, flight, hfinishing, hshort⟩
      rcases hfinishing.keyed with ⟨opened, transcript, hkeyed⟩
      rcases hfinishing.finished with ⟨trafficHash, htraffic, hfinished⟩
      rcases clientFinishedFinalize_spec hkeyed.shared htraffic with
        ⟨c', hrun, hagreed, hreader, hbuffer⟩
      have hrested' : c'.Rested := by
        refine ⟨?_, ?_, ?_⟩
        · rw [hbuffer]
          exact hrested.free
        · rw [hbuffer]
          exact hrested.room
        · rw [hreader]
          exact hrested.ready
      have hstage : Stage suite kx config provider wire c' .applicationData :=
        .applicationData ⟨hfinishing.answered, hfinished, hagreed, hfinishing.encrypted, hshort,
          hfinishing.wire⟩
      simp only [hrun]
      exact openLoop_outcome hproper 1 hrested' hstage

theorem call_outcome (hproper : Proper provider) (hrested : c.Rested)
    (hkeys : c.keySchedule = KeySchedule.new suite) :
    exists result, call suite kx config provider c = .ok result ∧
      Outcome suite kx config provider [] result := by
  have hloop (v : sigma) : exists result, openLoop suite kx config provider 2 .clientHello
      { c with handshake := Handshake.new, verifier := v } = .ok result ∧
        Outcome suite kx config provider [] result :=
    openLoop_outcome hproper 1 ⟨hrested.free, hrested.room, hrested.ready⟩
      (.clientHello hkeys rfl rfl)
  unfold call
  split
  · simp only
    split
    · exact ⟨_, rfl, .failed _ _ .nothing⟩
    · exact hloop _
  · exact hloop c.verifier

end Stretches

/-! ## Runs -/

section Runs

variable {sigma : Type} (suite : TlsCipherSuite) (kx : KeyExchange) (config : TlsConfig)
  (provider : CryptoProvider sigma)

inductive Holds (s : System sigma) : Prop where
  | fresh (hfuture : s.future = none) (hresult : s.result = none) (hwire : s.wire = [])
      (hrested : s.conn.Rested) (hkeys : s.conn.keySchedule = KeySchedule.new suite) : Holds s
  | waits (a : Await) (hfuture : s.future = some a) (hresult : s.result = none)
      (h : Outcome suite kx config provider s.wire (.awaits a, s.conn)) : Holds s
  | returned (result : Except ProtocolError Unit) (hfuture : s.future = none)
      (hresult : s.result = some result)
      (h : Outcome suite kx config provider s.wire (.returned result, s.conn)) : Holds s
  | cut (hfuture : s.future = none) (hresult : s.result = some (.error (.record .io)))
      (text : List UInt8) (hwritten : Written suite kx config provider text)
      (hstarts : s.wire <+: text) : Holds s

/-- The bytes that arrive complete a record of the flight of the server with nothing in
it. -/
def Dies (e : Event) (s : System sigma) : Prop :=
  exists n state a progress, e = .arrived n ∧ s.future = some (.reading state a) ∧
    RecordReader.resume (s.stream.take n) a s.conn.recordReader = .ok progress ∧
    Empties suite state progress s.conn

variable {suite kx config provider} {s t : System sigma} {e : Event} {es : List Event}

theorem settle_holds {result : Progress × Opening sigma} {s : System sigma}
    (hresult : s.result = none)
    (h : Outcome suite kx config provider s.wire result) :
    Holds suite kx config provider (settle s result) := by
  rcases result with ⟨progress, c⟩
  cases progress with
  | awaits a => exact .waits a rfl hresult h
  | returned r => exact .returned r rfl rfl h

theorem Outcome.written {a : Await} {c : Opening sigma} {wire : List UInt8}
    (h : Outcome suite kx config provider wire (.awaits a, c)) :
    exists text, Written suite kx config provider text ∧ wire <+: text := by
  cases h with
  | reading state a c hstate hstage hfree hroom hsound hawait =>
      exact ⟨wire, hstage.written, List.prefix_refl _⟩
  | sending rest after c hcount hpromise =>
      exact ⟨wire ++ rest, hpromise.written, List.prefix_append _ _⟩
  | flushing after c hpromise => exact ⟨wire, hpromise.written, List.prefix_refl _⟩

theorem Holds.written (h : Holds suite kx config provider s) :
    exists text, Written suite kx config provider text ∧ s.wire <+: text := by
  cases h with
  | fresh _ _ hwire _ _ =>
      rw [hwire]
      exact ⟨[], .nothing, List.prefix_refl _⟩
  | waits a _ _ h => exact h.written
  | returned result _ _ h =>
      cases h with
      | failed e _ hwritten => exact ⟨s.wire, hwritten, List.prefix_refl _⟩
      | opened _ h _ _ =>
          rw [h.wire]
          exact ⟨_, .sealed h.answered _ h.short h.encrypted, List.prefix_refl _⟩
  | cut _ _ text hwritten hstarts => exact ⟨text, hwritten, hstarts⟩

theorem Holds.waiting (h : Holds suite kx config provider s) {a : Await}
    (hfuture : s.future = some a) :
    s.result = none ∧ Outcome suite kx config provider s.wire (.awaits a, s.conn) := by
  cases h with
  | fresh hnone _ _ _ _ =>
      rw [hfuture] at hnone
      cases hnone
  | returned _ hnone _ _ =>
      rw [hfuture] at hnone
      cases hnone
  | cut hnone _ _ _ _ =>
      rw [hfuture] at hnone
      cases hnone
  | waits a' hsome hresult h =>
      rw [hfuture] at hsome
      cases hsome
      exact ⟨hresult, h⟩

theorem not_dies (hother : forall n, e ≠ .arrived n) : ¬ Dies suite e s := by
  rintro ⟨n, state, a, progress, heq, _⟩
  exact hother n heq

theorem next_arrived (hproper : Proper provider) (h : Holds suite kx config provider s) {n : Nat}
    (henabled : Enabled (.arrived n) s) :
    (exists t, next suite kx config provider (.arrived n) s = .ok t ∧
      Holds suite kx config provider t ∧ ¬ Dies suite (.arrived n) s) ∨
    (next suite kx config provider (.arrived n) s = .error .unwrapNone ∧
      (Dies suite (.arrived n) s ∨ s.conn.Full)) := by
  rcases henabled with ⟨state, a, hfuture, _, hrequested, _⟩
  rcases h.waiting hfuture with ⟨hresult, houtcome⟩
  cases houtcome with
  | reading _ _ _ hstate hstage hfree hroom hsound hawait =>
      have hbytes : (s.stream.take n).length ≤ a.requested s.conn.recordReader := by
        rw [List.length_take]
        omega
      rcases RecordReader.resume_landed hsound hawait hbytes with ⟨progress, hresume, hlanded⟩
      have hdies : Dies suite (.arrived n) s -> Empties suite state progress s.conn := by
        rintro ⟨n', state', a', progress', heq, hfuture', hresume', hempties⟩
        cases heq
        rw [hfuture] at hfuture'
        cases hfuture'
        rw [hresume] at hresume'
        cases hresume'
        exact hempties
      have hnext : next suite kx config provider (.arrived n) s = (do
          let result <- recordRead suite kx provider (openLoop suite kx config provider 2) state
            progress s.conn
          pure (settle { s with stream := s.stream.drop n } result)) := by
        unfold next arrived
        rw [hfuture]
        simp only [hresume, ok_bind]
      have hloop (state : State) (c : Opening sigma) (hrested : c.Rested)
          (hstage : Stage suite kx config provider s.wire c state) :=
        openLoop_outcome hproper 1 hrested hstage
      rw [hnext]
      rcases recordRead_outcome hloop hstate hstage hfree hroom hlanded with
        ⟨result, hrun, houtcome, hnot⟩ | ⟨hrun, hwhy⟩
      · left
        rw [hrun, ok_bind]
        have hholds : Holds suite kx config provider
            (settle { s with stream := s.stream.drop n } result) :=
          settle_holds hresult houtcome
        exact ⟨_, rfl, hholds, fun hd => hnot (hdies hd)⟩
      · right
        rw [hrun]
        refine ⟨rfl, ?_⟩
        rcases hwhy with hempties | hfull
        · exact Or.inl ⟨n, state, a, progress, rfl, hfuture, hresume, hempties⟩
        · exact Or.inr hfull

theorem next_wrote (h : Holds suite kx config provider s) {n : Nat}
    (henabled : Enabled (.wrote n) s) :
    exists t, next suite kx config provider (.wrote n) s = .ok t ∧
      Holds suite kx config provider t := by
  rcases henabled with ⟨rest, after, hfuture, _, _⟩
  rcases h.waiting hfuture with ⟨hresult, houtcome⟩
  cases houtcome with
  | sending _ _ _ hcount hpromise =>
      have hsame : s.wire ++ rest.take n ++ rest.drop n = s.wire ++ rest := by
        rw [List.append_assoc, List.take_append_drop]
      rw [← hsame] at hpromise
      rcases respond_outcome hcount hpromise with ⟨result, hrun, houtcome⟩
      have hholds : Holds suite kx config provider
          (settle { s with wire := s.wire ++ rest.take n } result) :=
        settle_holds hresult houtcome
      refine ⟨_, ?_, hholds⟩
      unfold next
      rw [hfuture]
      simp only [hrun, ok_bind]
      rfl

theorem next_flushed (hproper : Proper provider) (h : Holds suite kx config provider s)
    (henabled : Enabled .flushed s) :
    exists t, next suite kx config provider .flushed s = .ok t ∧
      Holds suite kx config provider t := by
  rcases henabled with ⟨after, hfuture⟩
  rcases h.waiting hfuture with ⟨hresult, houtcome⟩
  cases houtcome with
  | flushing _ _ hpromise =>
      rcases flushed_outcome hproper hpromise with ⟨result, hrun, houtcome⟩
      refine ⟨settle s result, ?_, settle_holds hresult houtcome⟩
      unfold next
      rw [hfuture]
      simp only [hrun, ok_bind]
      rfl

theorem next_called (hproper : Proper provider) (h : Holds suite kx config provider s)
    (henabled : Enabled .called s) :
    exists t, next suite kx config provider .called s = .ok t ∧
      Holds suite kx config provider t := by
  rcases henabled with ⟨hfuture, hresult⟩
  cases h with
  | fresh _ _ hwire hrested hkeys =>
      have hcall : exists result, call suite kx config provider s.conn = .ok result ∧
          Outcome suite kx config provider s.wire result := by
        rw [hwire]
        exact call_outcome hproper hrested hkeys
      rcases hcall with ⟨result, hrun, houtcome⟩
      refine ⟨settle s result, ?_, settle_holds hresult houtcome⟩
      unfold next
      rw [hrun]
      rfl
  | waits a hsome _ _ =>
      rw [hfuture] at hsome
      cases hsome
  | returned r _ hsome _ =>
      rw [hresult] at hsome
      cases hsome
  | cut _ hsome _ _ _ =>
      rw [hresult] at hsome
      cases hsome

/-- A step keeps all this, or the program ends: just when a record with nothing in it
arrives, or when the records of the server cannot be counted any more. -/
theorem next_cases (hproper : Proper provider) (h : Holds suite kx config provider s)
    (henabled : Enabled e s) :
    (exists t, next suite kx config provider e s = .ok t ∧
      Holds suite kx config provider t ∧ ¬ Dies suite e s) ∨
    (next suite kx config provider e s = .error .unwrapNone ∧
      (Dies suite e s ∨ s.conn.Full)) := by
  cases e with
  | arrived n => exact next_arrived hproper h henabled
  | called =>
      left
      rcases next_called hproper h henabled with ⟨t, hrun, ht⟩
      exact ⟨t, hrun, ht, not_dies nofun⟩
  | wrote n =>
      left
      rcases next_wrote h henabled with ⟨t, hrun, ht⟩
      exact ⟨t, hrun, ht, not_dies nofun⟩
  | flushed =>
      left
      rcases next_flushed hproper h henabled with ⟨t, hrun, ht⟩
      exact ⟨t, hrun, ht, not_dies nofun⟩
  | transportFailed =>
      left
      rcases h.written with ⟨text, htext, hstarts⟩
      exact ⟨_, rfl, .cut rfl rfl text htext hstarts, not_dies nofun⟩

theorem step_holds (hproper : Proper provider) (h : Holds suite kx config provider s)
    (hstep : step suite kx config provider e s t) : Holds suite kx config provider t := by
  rcases next_cases hproper h hstep.1 with ⟨t', hnext, ht, _⟩ | ⟨hnext, _⟩
  · rw [hstep.2] at hnext
    cases hnext
    exact ht
  · rw [hstep.2] at hnext
    cases hnext

theorem run_holds (hproper : Proper provider) {readBuf writeBuf : List UInt8}
    (hroom : tlsRecordOverhead < writeBuf.length) {verifier : sigma} {stream : List UInt8}
    (hrun : Run (step suite kx config provider) (start suite readBuf writeBuf verifier stream)
      es s) : Holds suite kx config provider s := by
  have hrested : (start suite readBuf writeBuf verifier stream).conn.Rested :=
    ⟨⟨rfl, rfl, rfl, rfl⟩, hroom, RecordReader.new_ready readBuf⟩
  exact hrun.invariant (fun _ _ _ h hstep => step_holds hproper h hstep)
    (.fresh rfl rfl rfl hrested rfl)

/-- A connection is opened only when a finished message has been read with the code over
the transcript, under the secret that the client shares with the sender of the hello; then
the keys are those of this transcript. -/
theorem opens_with_agreement (hproper : Proper provider) {readBuf writeBuf : List UInt8}
    (hroom : tlsRecordOverhead < writeBuf.length) {verifier : sigma} {stream : List UInt8}
    (hrun : Run (step suite kx config provider) (start suite readBuf writeBuf verifier stream)
      es s) (hresult : s.result = some (.ok ())) :
    exists dhe hellos trafficHash,
      Answered suite kx config provider dhe hellos ∧
      HasFinished suite (serverSecret suite config dhe hellos) hellos trafficHash ∧
      Agreed suite config dhe trafficHash s.conn ∧ s.conn.opened = true ∧ s.conn.Rested := by
  cases run_holds hproper hroom hrun with
  | fresh _ hnone _ _ _ =>
      rw [hresult] at hnone
      cases hnone
  | waits _ _ hnone _ =>
      rw [hresult] at hnone
      cases hnone
  | cut _ hsome _ _ _ =>
      rw [hresult] at hsome
      cases hsome
  | returned result _ hsome h =>
      rw [hresult] at hsome
      cases hsome
      cases h with
      | opened _ h hopened hrested =>
          exact ⟨_, _, _, h.answered, h.finished, h.agreed, hopened, hrested⟩

/-- All that the client ever writes before the connection is open is its hello, and behind
it sealed records with the counters from zero on or an alert. -/
theorem writes_only (hproper : Proper provider) {readBuf writeBuf : List UInt8}
    (hroom : tlsRecordOverhead < writeBuf.length) {verifier : sigma} {stream : List UInt8}
    (hrun : Run (step suite kx config provider) (start suite readBuf writeBuf verifier stream)
      es s) : exists text, Written suite kx config provider text ∧ s.wire <+: text :=
  (run_holds hproper hroom hrun).written

/-- On any stream the handshake ends the program just when the bytes that arrive complete a
sealed record with nothing in it, as long as the records can be counted. -/
theorem open_faults_iff (hproper : Proper provider) {readBuf writeBuf : List UInt8}
    (hroom : tlsRecordOverhead < writeBuf.length) {verifier : sigma} {stream : List UInt8}
    (hrun : Run (step suite kx config provider) (start suite readBuf writeBuf verifier stream)
      es s) (henabled : Enabled e s)
    (hcount : s.conn.keySchedule.serverState.state.counter + 1 < UInt64.size) :
    (exists f, next suite kx config provider e s = .error f) <-> Dies suite e s := by
  constructor
  · rintro ⟨f, hfault⟩
    rcases next_cases hproper (run_holds hproper hroom hrun) henabled with
      ⟨t, hnext, _⟩ | ⟨_, hdies | hfull⟩
    · rw [hnext] at hfault
      cases hfault
    · exact hdies
    · exact absurd hcount (Nat.not_lt_of_le hfull)
  · intro hdies
    rcases next_cases hproper (run_holds hproper hroom hrun) henabled with
      ⟨t, _, _, hlives⟩ | ⟨hnext, _⟩
    · exact absurd hdies hlives
    · exact ⟨_, hnext⟩

end Runs
end Opening
end EmbeddedTls
end TWA
