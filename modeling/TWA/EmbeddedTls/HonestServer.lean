import TWA.EmbeddedTls.HandshakeSteps
import TWA.EmbeddedTls.ServerTexts

/-!
# A server that answers

What an honest server sends: its hello in the clear, and then a flight of sealed
records with messages that the client takes, of which the last is the finished
message with the code over all before it.  Records that only change the cipher
may stand in between.  The shortest flight has one record, and every share that
the client can use leads to a server that sends it.
-/

namespace TWA
namespace EmbeddedTls

open Foundation
open Foundation.Exec
open ParseBuffer

structure Noted (sigma : Type) where
  /-- The context of a request for a certificate. -/
  request : Option (List UInt8)
  verifier : sigma

namespace Noted

variable {sigma : Type} (n : Noted sigma)

def handshake : Handshake :=
  { Handshake.new with certificateRequest := n.request }

def verifying : Verifying sigma :=
  { state := .serverVerify, handshake := n.handshake, verifier := n.verifier }

def finished (transcript : Transcript) : Verifying sigma :=
  if n.request.isSome then
    { n.verifying with state := .clientCert }
  else
    { n.verifying with
      state := .clientFinished
      handshake := { n.handshake with trafficHash := some transcript } }

end Noted

/-! ## The flight -/

section Flights

variable {sigma : Type} (suite : TlsCipherSuite) (provider : CryptoProvider sigma)

inductive Takes (transcript : Transcript) : ServerHandshake -> Noted sigma -> Noted sigma -> Prop
    where
  | encryptedExtensions (n : Noted sigma) : Takes transcript .encryptedExtensions n n
  | certificateUnread (cert : CertificateRef) (n : Noted sigma) (h : provider.verifier = none) :
      Takes transcript (.certificate cert) n n
  | certificate (verifier : TlsVerifier sigma) (cert : CertificateRef) (n : Noted sigma)
      (v : sigma) (h : provider.verifier = some verifier)
      (haccepts : verifier.verifyCertificate transcript cert n.verifier = (.ok (), v)) :
      Takes transcript (.certificate cert) n { n with verifier := v }
  | signatureUnread (verify : CertificateVerifyRef) (n : Noted sigma)
      (h : provider.verifier = none) : Takes transcript (.certificateVerify verify) n n
  | signature (verifier : TlsVerifier sigma) (verify : CertificateVerifyRef) (n : Noted sigma)
      (v : sigma) (h : provider.verifier = some verifier)
      (haccepts : verifier.verifySignature verify n.verifier = (.ok (), v)) :
      Takes transcript (.certificateVerify verify) n { n with verifier := v }
  | request (request : CertificateRequestRef) (n : Noted sigma)
      (h : request.requestContext.length ≤ 256) :
      Takes transcript (.certificateRequest request) n
        { n with request := some request.requestContext }

inductive TakesAll : Transcript -> Noted sigma -> List UInt8 -> Noted sigma -> Prop where
  | nil (transcript : Transcript) (n : Noted sigma) : TakesAll transcript n [] n
  | cons {transcript : Transcript} {n n' n'' : Noted sigma} {tok content : List UInt8}
      {message : ServerHandshake}
      (hreads : (ServerHandshake.parse suite).Reads tok message)
      (htakes : Takes provider (transcript ++ tok) message n n')
      (hrest : TakesAll (transcript ++ tok) n' content n'') :
      TakesAll transcript n (tok ++ content) n''

def messagesPlain (content : List UInt8) (padding : Nat) : List UInt8 :=
  content ++ [ContentType.handshake.toByte] ++ List.replicate padding 0

inductive FlightItem where
  | changeCipherSpec
  | messages (content : List UInt8) (padding : Nat)
      (fits : (messagesPlain content padding).length + suite.tagLen < 256 ^ 2)

def serverFinished (secret : List UInt8) (transcript : Transcript) : List UInt8 :=
  finishedBytes (numberBytes 3 suite.hashLen)
    (KeyTree.finishedMac suite secret (suite.hash transcript))

/-- The items carry the client from a transcript and what it has noted to the end of the
flight. -/
inductive Flies (secret : List UInt8) :
    Transcript -> Noted sigma -> List (FlightItem suite) -> Transcript -> Noted sigma -> Prop where
  | changeCipherSpec {transcript transcript' : Transcript} {n n' : Noted sigma}
      {items : List (FlightItem suite)} (hrest : Flies secret transcript n items transcript' n') :
      Flies secret transcript n (.changeCipherSpec :: items) transcript' n'
  | messages {transcript transcript' : Transcript} {n n' n'' : Noted sigma}
      {items : List (FlightItem suite)} {content : List UInt8} {padding : Nat}
      {fits : (messagesPlain content padding).length + suite.tagLen < 256 ^ 2}
      (htakes : TakesAll suite provider transcript n content n')
      (hrest : Flies secret (transcript ++ content) n' items transcript' n'') :
      Flies secret transcript n (.messages content padding fits :: items) transcript' n''
  | finished {transcript : Transcript} {n n' : Noted sigma} {content : List UInt8} {padding : Nat}
      {fits : (messagesPlain (content ++ serverFinished suite secret (transcript ++ content))
        padding).length + suite.tagLen < 256 ^ 2}
      (htakes : TakesAll suite provider transcript n content n') :
      Flies secret transcript n
        [.messages (content ++ serverFinished suite secret (transcript ++ content)) padding fits]
        (transcript ++ content ++ serverFinished suite secret (transcript ++ content)) n'

def clearHeader (content : List UInt8) : RecordHeader :=
  { header := [ContentType.handshake.toByte, 0x03, 0x03] ++ numberBytes 2 content.length }

theorem contentLength_clearHeader {content : List UInt8} (hfits : content.length < 256 ^ 2) :
    content.length = (clearHeader content).contentLength := by
  have hnumber := bigEndian_numberBytes hfits
  have hlen : (clearHeader content).contentLength =
      bigEndian (numberBytes 2 content.length) := by
    simp [RecordHeader.contentLength, clearHeader, bigEndian, numberBytes]
  rw [hlen]
  exact hnumber.symm

def clearHandshake (content : List UInt8) (hfits : content.length < 256 ^ 2) : Record where
  header := clearHeader content
  body := content
  header_length := rfl
  decodes := rfl
  body_length := contentLength_clearHeader hfits

def changeCipherSpecRecord : Record where
  header := { header := [ContentType.changeCipherSpec.toByte, 0x03, 0x03, 0x00, 0x01] }
  body := [0x01]
  header_length := rfl
  decodes := rfl
  body_length := rfl

def flightRecords (key iv : List UInt8) : Nat -> List (FlightItem suite) -> List Record
  | _, [] => []
  | i, .changeCipherSpec :: items => changeCipherSpecRecord :: flightRecords key iv i items
  | i, .messages content padding fits :: items =>
      sealedRecord suite key iv i (messagesPlain content padding) fits ::
        flightRecords key iv (i + 1) items

theorem Flies.head {suite : TlsCipherSuite} {provider : CryptoProvider sigma} {secret : List UInt8}
    {transcript transcript' : Transcript} {n n' : Noted sigma} {items : List (FlightItem suite)}
    (h : Flies suite provider secret transcript n items transcript' n') (key iv : List UInt8)
    (i : Nat) : exists rec records, flightRecords suite key iv i items = rec :: records := by
  cases h with
  | changeCipherSpec _ => exact ⟨_, _, rfl⟩
  | messages _ _ => exact ⟨_, _, rfl⟩
  | finished _ => exact ⟨_, _, rfl⟩

end Flights

/-- A server that answers the hello of a client, whose verifier starts in a state. -/
structure HonestServer {sigma : Type} (suite : TlsCipherSuite) (kx : KeyExchange)
    (config : TlsConfig) (provider : CryptoProvider sigma) (verifier : sigma) where
  serverHello : ServerHello
  hello : List UInt8
  dhe : List UInt8
  items : List (FlightItem suite)
  /-- The transcript with which the server finishes. -/
  transcript : Transcript
  noted : Noted sigma
  hello_lt : hello.length < 256 ^ 2
  hello_reads : (ServerHandshake.parse suite).Reads hello (.serverHello serverHello)
  agrees : serverHello.calculateSharedSecret kx provider.secret = some dhe
  flies : Flies suite provider
    (Opening.serverSecret suite config dhe (Opening.helloSent suite kx config provider ++ hello))
    (Opening.helloSent suite kx config provider ++ hello)
    { request := none, verifier := verifier } items transcript noted
  few : items.length < UInt64.size - 1

namespace HonestServer

variable {sigma : Type} {suite : TlsCipherSuite} {kx : KeyExchange} {config : TlsConfig}
  {provider : CryptoProvider sigma} {verifier : sigma}
  (server : HonestServer suite kx config provider verifier)

def hellos : Transcript :=
  Opening.helloSent suite kx config provider ++ server.hello

def keys : KeyScheduleState :=
  Opening.serverTraffic suite config server.dhe server.hellos

def helloRecord : Record :=
  clearHandshake server.hello server.hello_lt

def recordsFrom (i : Nat) (items : List (FlightItem suite)) : List Record :=
  flightRecords suite server.keys.key server.keys.iv i items

def records : List Record :=
  server.helloRecord :: server.recordsFrom 0 server.items

end HonestServer

/-! ## The messages of a record are taken -/

section Taken

variable {sigma : Type} {suite : TlsCipherSuite} {provider : CryptoProvider sigma}
  {transcript transcript' : Transcript} {n n' : Noted sigma} {content : List UInt8}

theorem Reads.pos {tok : List UInt8} {message : ServerHandshake}
    (h : (ServerHandshake.parse suite).Reads tok message) : 0 < tok.length := by
  have hrun := h (Cursor.start tok) [] (Cursor.start_valid _) (List.append_nil _).symm
  rcases ServerHandshake.parse_safe suite (Cursor.start tok) (Cursor.start_valid _) with
    ⟨r, k, hsafe, _, hr⟩
  rw [hrun] at hsafe
  cases r with
  | error e => cases hsafe
  | ok a =>
      have hlong := (hr a rfl).1
      have hpos := congrArg (fun r => match r with
        | .ok (_, c) => c.pos
        | .error _ => 0) hsafe
      simp only [Cursor.advance_pos] at hpos
      omega

theorem handshakeLoop_reads {cb : Callback sigma} {buf : ParseBuffer} (hbuf : buf.Valid)
    {tok more : List UInt8} (hrest : buf.rest = tok ++ more) {message : ServerHandshake}
    (hreads : (ServerHandshake.parse suite).Reads tok message) {keys : ReadKeySchedule} {s : sigma}
    {state : ReadKeySchedule × sigma}
    (hcall : cb (.handshake (message.withHash suite keys.transcript))
      ({ keys with transcript := keys.transcript ++ tok }, s) = .ok (.ok (), state))
    (fuel : Nat) :
    handshakeLoop suite cb (fuel + 1) buf (keys, s) =
      handshakeLoop suite cb fuel (buf.advance tok.length) state := by
  have hpos := Reads.pos hreads
  have hfit := Cursor.valid_behind hbuf hrest
  have hlen := buf.length_rest
  have htake : buf.rest.take tok.length = tok := by
    rw [hrest, List.take_left]
  have hmore : buf.buffer.length - buf.pos > 0 := by
    rw [← hlen, hrest, List.length_append]
    omega
  conv_lhs => unfold handshakeLoop
  rw [sub_of_le hbuf, ok_bind, if_pos hmore,
    ServerHandshake.read_of_parse suite _ (hreads buf more hbuf hrest) hfit, ok_bind, htake]
  simp only [hcall, ok_bind]

theorem handshakeLoop_end {cb : Callback sigma} {buf : ParseBuffer} (hbuf : buf.Valid)
    (hrest : buf.rest = []) (fuel : Nat) (state : ReadKeySchedule × sigma) :
    handshakeLoop suite cb (fuel + 1) buf state = .ok (.ok (), state) := by
  have hlen := buf.length_rest
  have hnone : ¬ buf.buffer.length - buf.pos > 0 := by
    rw [← hlen, hrest]
    exact Nat.lt_irrefl 0
  rcases state with ⟨keys, s⟩
  unfold handshakeLoop
  rw [sub_of_le hbuf, ok_bind, if_neg hnone]
  rfl

theorem Takes.callback {message : ServerHandshake} {keys : ReadKeySchedule}
    (h : Takes provider keys.transcript message n n') (before : Transcript) :
    Opening.verifyHandshake suite provider (.handshake (message.withHash suite before))
      (keys, n.verifying) = .ok (.ok (), (keys, n'.verifying)) := by
  cases h with
  | encryptedExtensions => rfl
  | certificateUnread cert _ hnone =>
      simp only [ServerHandshake.withHash, Opening.verifyHandshake, hnone]
      rfl
  | certificate verifier cert _ v hsome haccepts =>
      have hrun : verifier.verifyCertificate keys.transcript cert n.verifying.verifier =
        (.ok (), v) := haccepts
      simp only [ServerHandshake.withHash, Opening.verifyHandshake, hsome, hrun]
      rfl
  | signatureUnread verify _ hnone =>
      simp only [ServerHandshake.withHash, Opening.verifyHandshake, hnone]
      rfl
  | signature verifier verify _ v hsome haccepts =>
      have hrun : verifier.verifySignature verify n.verifying.verifier = (.ok (), v) := haccepts
      simp only [ServerHandshake.withHash, Opening.verifyHandshake, hsome, hrun]
      rfl
  | request request _ hle =>
      simp only [ServerHandshake.withHash, Opening.verifyHandshake, if_pos hle]
      rfl

theorem handshakeLoop_takes (h : TakesAll suite provider transcript n content n')
    {buf : ParseBuffer} (hbuf : buf.Valid) {more : List UInt8} (hrest : buf.rest = content ++ more)
    (keys : ReadKeySchedule) (htranscript : keys.transcript = transcript) {fuel : Nat}
    (hfuel : (content ++ more).length < fuel) :
    exists fuel', more.length < fuel' ∧
      handshakeLoop suite (Opening.verifyHandshake suite provider) fuel buf
          (keys, n.verifying) =
        handshakeLoop suite (Opening.verifyHandshake suite provider) fuel'
          (buf.advance content.length)
          ({ keys with transcript := transcript ++ content }, n'.verifying) := by
  induction h generalizing buf keys fuel with
  | nil transcript n =>
      have hsame : ({ keys with transcript := transcript ++ [] } : ReadKeySchedule) = keys := by
        rw [List.append_nil, ← htranscript]
      exact ⟨fuel, hfuel, by rw [hsame]; rfl⟩
  | @cons transcript n₁ n₂ n₃ tok content message hreads htakes _ ih =>
      have hpos := Reads.pos hreads
      rw [List.append_assoc] at hrest hfuel
      rw [List.length_append] at hfuel
      subst htranscript
      cases fuel with
      | zero => exact absurd hfuel (Nat.not_lt_zero _)
      | succ fuel =>
          let digested : ReadKeySchedule := { keys with transcript := keys.transcript ++ tok }
          have htaken : Takes provider digested.transcript message n₁ n₂ := htakes
          have hcall := @Takes.callback sigma suite _ _ _ _ _ htaken keys.transcript
          have hfuel' : (content ++ more).length < fuel := by omega
          rcases ih (Cursor.valid_behind hbuf hrest) (Cursor.rest_advance hrest) digested rfl hfuel'
            with ⟨fuel', hmore, hloop⟩
          refine ⟨fuel', hmore, ?_⟩
          rw [handshakeLoop_reads hbuf hrest hreads hcall, hloop, Cursor.advance_advance,
            List.length_append, List.append_assoc]

theorem handshakeLoop_messages (h : TakesAll suite provider transcript n content n')
    (state : KeyScheduleState) :
    handshakeLoop suite (Opening.verifyHandshake suite provider) (content.length + 1)
        (Cursor.start content) ({ state := state, transcript := transcript }, n.verifying) =
      .ok (.ok (), ({ state := state, transcript := transcript ++ content }, n'.verifying)) := by
  have hrest : (Cursor.start content).rest = content ++ [] := (List.append_nil _).symm
  have hfuel : (content ++ []).length < content.length + 1 := by
    rw [List.append_nil]
    exact Nat.lt_succ_self _
  rcases handshakeLoop_takes h (Cursor.start_valid _) hrest
    { state := state, transcript := transcript } rfl hfuel with ⟨fuel, hpos, hloop⟩
  rw [hloop]
  cases fuel with
  | zero => exact absurd hpos (Nat.not_lt_zero _)
  | succ fuel =>
      exact handshakeLoop_end (Cursor.valid_behind (Cursor.start_valid _) hrest)
        (Cursor.rest_advance hrest) fuel _

theorem serverFinished_reads (secret : List UInt8) (transcript : Transcript) :
    (ServerHandshake.parse suite).Reads (serverFinished suite secret transcript)
      (.finished
        { verify := KeyTree.finishedMac suite secret (suite.hash transcript), hash := none }) := by
  have hlen : (KeyTree.finishedMac suite secret (suite.hash transcript)).length =
      suite.hashLen := suite.length_hmac _ _
  have hfinished := finished_reads (f := {
    verify := KeyTree.finishedMac suite secret (suite.hash transcript), hash := none }) hlen
  exact ServerHandshake.parse_reads (length_numberBytes 3 _) (hfinished.map _)

section Ended

variable {config : TlsConfig} {dhe : List UInt8} {hellos : Transcript} {opened : Nat}

theorem verifyHandshake_finished {keys : ReadKeySchedule} (n : Noted sigma)
    (h : keys.state =
      { Opening.serverTraffic suite config dhe hellos with counter := opened }) :
    Opening.verifyHandshake suite provider
        (.handshake ((ServerHandshake.finished
          { verify := KeyTree.finishedMac suite (Opening.serverSecret suite config dhe hellos)
              (suite.hash transcript), hash := none }).withHash suite transcript))
        (keys, n.verifying) =
      .ok (.ok (), (keys, n.finished keys.transcript)) := by
  have hverify := Opening.verifyServerFinished_spec h
    (KeyTree.finishedMac suite (Opening.serverSecret suite config dhe hellos)
      (suite.hash transcript)) (suite.hash transcript)
  simp only [ServerHandshake.withHash, Opening.verifyHandshake, hverify, beq_self_eq_true]
  unfold Noted.finished
  split
  · rename_i hrequest
    have hsome : n.request.isSome = true := hrequest
    rw [if_pos hsome]
    rfl
  · rename_i hrequest
    have hnone : ¬ n.request.isSome = true := hrequest
    rw [if_neg hnone]
    rfl

theorem handshakeLoop_finished (h : TakesAll suite provider transcript n content n')
    {state : KeyScheduleState}
    (hstate : state = { Opening.serverTraffic suite config dhe hellos with counter := opened })
    {last : List UInt8}
    (hlast : last = serverFinished suite (Opening.serverSecret suite config dhe hellos)
      (transcript ++ content)) :
    handshakeLoop suite (Opening.verifyHandshake suite provider) ((content ++ last).length + 1)
        (Cursor.start (content ++ last))
        ({ state := state, transcript := transcript }, n.verifying) =
      .ok (.ok (), ({ state := state, transcript := transcript ++ content ++ last },
        n'.finished (transcript ++ content ++ last))) := by
  have hrest : (Cursor.start (content ++ last)).rest = content ++ last := rfl
  have hreads := @serverFinished_reads suite (Opening.serverSecret suite config dhe hellos)
    (transcript ++ content)
  rw [← hlast] at hreads
  rcases handshakeLoop_takes h (Cursor.start_valid _) hrest
    { state := state, transcript := transcript } rfl (Nat.lt_succ_self _) with
    ⟨fuel, hpos, hloop⟩
  have hvalid := Cursor.valid_behind (Cursor.start_valid (content ++ last)) hrest
  have hbehind : ((Cursor.start (content ++ last)).advance content.length).rest = last ++ [] := by
    rw [List.append_nil]
    exact Cursor.rest_advance hrest
  have hcall := @verifyHandshake_finished sigma suite provider (transcript ++ content) config dhe
    hellos opened { state := state, transcript := transcript ++ content ++ last } n' hstate
  rw [hloop]
  cases fuel with
  | zero => exact absurd hpos (Nat.not_lt_zero _)
  | succ fuel =>
      rw [handshakeLoop_reads hvalid hbehind hreads hcall]
      cases fuel with
      | zero =>
          have hlong := Reads.pos hreads
          exact absurd hpos (by omega)
      | succ fuel =>
          exact handshakeLoop_end (Cursor.valid_behind hvalid hbehind)
            (Cursor.rest_advance hbehind) fuel _

end Ended

theorem handlePlain_messages {cb : Callback sigma} {state : ReadKeySchedule × sigma}
    {keys : ReadKeySchedule} {s : sigma} (header : RecordHeader) (start padding : Nat)
    (hrun : handshakeLoop suite cb (content.length + 1) (Cursor.start content) state =
      .ok (.ok (), (keys, s)))
    (hcount : keys.state.counter + 1 < UInt64.size) :
    handlePlain suite cb header start (messagesPlain content padding) state =
      .ok (.ok (), (keys.counted, s)) := by
  have hstrip : stripPadding (messagesPlain content padding) =
      content ++ [ContentType.handshake.toByte] :=
    stripPadding_append content padding (by decide)
  have htake : (content ++ [ContentType.handshake.toByte]).take
      ((content ++ [ContentType.handshake.toByte]).length - 1) = content := by
    rw [List.length_append, List.length_singleton, Nat.add_sub_cancel, List.take_left]
  unfold handlePlain
  simp only [hstrip, List.getLast?_concat, ContentType.of_toByte, htake, handleContent, hrun,
    ok_bind]
  rcases incrementCounter_cases keys.state with ⟨hnext, _⟩ | ⟨_, hfull⟩
  · rw [hnext, ok_bind]
    rfl
  · exact absurd hcount (Nat.not_lt_of_le hfull)

end Taken

/-! ## The shortest flight -/

structure HelloFields where
  random : List UInt8
  cipher : CipherSuite
  share : KeyShareEntry
  random_length : random.length = 32
  short : 48 + share.bytes.length < 256 ^ 2

namespace HelloFields

variable (f : HelloFields)

def extension : List UInt8 :=
  numberBytes 2 ExtensionType.keyShare.asU16 ++ numberBytes 2 f.share.bytes.length ++ f.share.bytes

def body : List UInt8 :=
  numberBytes 2 legacyVersion ++ (f.random ++ (0 :: (numberBytes 2 f.cipher.asU16 ++
    (0 :: (numberBytes 2 f.extension.length ++ f.extension)))))

def message : List UInt8 :=
  HandshakeType.serverHello.toByte :: (numberBytes 3 f.body.length ++ f.body)

def serverHello : ServerHello :=
  { extensions := [(.keyShare, .keyShare f.share)] }

theorem length_extension : f.extension.length = 4 + f.share.bytes.length := by
  unfold extension
  rw [List.length_append, List.length_append, length_numberBytes, length_numberBytes]

theorem length_message : f.message.length = 48 + f.share.bytes.length := by
  simp only [message, body, List.length_cons, List.length_append, length_numberBytes,
    f.random_length, f.length_extension]
  omega

theorem share_reads : KeyShareEntry.parse.Reads f.share.bytes f.share := by
  have hshort := f.short
  refine keyShareEntry_reads ?_
  unfold KeyShareEntry.bytes at hshort
  rw [List.length_append, length_vector] at hshort
  omega

theorem extension_reads :
    (ExtensionGroup.parse ExtensionGroup.serverHello).Reads f.extension
      (.keyShare, .keyShare f.share) := by
  have hshort := f.short
  have hdata := (f.share_reads.map ExtensionData.keyShare) (Cursor.start f.share.bytes) []
    (Cursor.start_valid _) (by rw [List.append_nil]; rfl)
  exact ExtensionGroup.parse_reads rfl hdata (by omega)

theorem body_reads : ServerHello.parse.Reads f.body f.serverHello := by
  have hshort := f.short
  have hfill := fill_reads f.random
  rw [f.random_length] at hfill
  have hcipher : CipherSuite.parse.Reads (numberBytes 2 f.cipher.asU16) f.cipher := by
    refine parseCode_reads (number_reads ?_) ?_
    · cases f.cipher <;> decide
    · cases f.cipher <;> rfl
  have hlist : (ExtensionGroup.parseVector 4 ExtensionGroup.serverHello).Reads
      (numberBytes 2 ([f].flatMap extension).length ++ [f].flatMap extension)
      ([f].map (fun f => (ExtensionType.keyShare, ExtensionData.keyShare f.share))) := by
    refine ExtensionGroup.parseVector_reads ?_ (Nat.le_add_left 1 3) ?_
    · intro g hg
      rw [List.mem_singleton.mp hg]
      refine ⟨?_, f.extension_reads⟩
      intro hnone
      have hlen := f.length_extension
      rw [hnone, List.length_nil] at hlen
      omega
    · rw [List.flatMap_singleton, f.length_extension]
      omega
  rw [List.flatMap_singleton] at hlist
  have htok : f.body = numberBytes 2 legacyVersion ++ (f.random ++ ([0] ++ ([] ++
      (numberBytes 2 f.cipher.asU16 ++ ([0] ++
        ((numberBytes 2 f.extension.length ++ f.extension) ++ [])))))) := by
    rw [List.append_nil]
    rfl
  rw [htok]
  unfold ServerHello.parse
  refine Parser.Reads.bind ((number_reads (by decide)).mapError _) ?_
  refine Parser.Reads.bind (hfill.mapError _) ?_
  refine Parser.Reads.bind ((readU8_reads _).mapError _) ?_
  refine Parser.Reads.bind ((slice_reads []).mapError _) ?_
  refine Parser.Reads.bind (hcipher.mapError _) ?_
  refine Parser.Reads.bind ((readU8_reads _).mapError _) ?_
  exact Parser.Reads.bind hlist Parser.Reads.succeed

theorem message_reads (suite : TlsCipherSuite) :
    (ServerHandshake.parse suite).Reads f.message (.serverHello f.serverHello) :=
  ServerHandshake.parse_reads (length_numberBytes 3 _) (f.body_reads.map _)

def noExtensions : List UInt8 :=
  HandshakeType.encryptedExtensions.toByte :: (numberBytes 3 2 ++ numberBytes 2 0)

theorem noExtensions_reads (suite : TlsCipherSuite) :
    (ServerHandshake.parse suite).Reads noExtensions .encryptedExtensions := by
  have hnone := (ExtensionGroup.parseVector_nil_reads 16
    ExtensionGroup.encryptedExtensions).bind
    (f := fun _ => (pure () : Decode Unit)) Parser.Reads.succeed
  rw [List.append_nil] at hnone
  exact ServerHandshake.parse_reads (length_numberBytes 3 2) (hnone.map _)

theorem noExtensions_takes {sigma : Type} (suite : TlsCipherSuite)
    (provider : CryptoProvider sigma) (transcript : Transcript) (n : Noted sigma) :
    TakesAll suite provider transcript n noExtensions n := by
  have htakes : TakesAll suite provider transcript n (noExtensions ++ []) n :=
    .cons (noExtensions_reads suite) (.encryptedExtensions n) (.nil _ n)
  rw [List.append_nil] at htakes
  exact htakes

theorem length_serverFinished (suite : TlsCipherSuite) (secret : List UInt8)
    (transcript : Transcript) :
    (serverFinished suite secret transcript).length = 4 + suite.hashLen := by
  unfold serverFinished finishedBytes KeyTree.finishedMac
  rw [List.length_cons, List.length_append, length_numberBytes, suite.length_hmac]
  omega

section Servers

variable {sigma : Type} (suite : TlsCipherSuite) (kx : KeyExchange) (config : TlsConfig)
  (provider : CryptoProvider sigma) (verifier : sigma) (dhe : List UInt8)

def hellos : Transcript :=
  Opening.helloSent suite kx config provider ++ f.message

def lastMessage : List UInt8 :=
  serverFinished suite (Opening.serverSecret suite config dhe (f.hellos suite kx config provider))
    (f.hellos suite kx config provider ++ noExtensions)

theorem length_flight : (messagesPlain (noExtensions ++ f.lastMessage suite kx config provider dhe)
    0).length = 11 + suite.hashLen := by
  unfold messagesPlain lastMessage
  rw [List.length_append, List.length_append, List.length_append, length_serverFinished,
    List.length_replicate, List.length_singleton]
  show 6 + (4 + suite.hashLen) + 1 + 0 = 11 + suite.hashLen
  omega

theorem flight_fits : (messagesPlain (noExtensions ++ f.lastMessage suite kx config provider dhe)
    0).length + suite.tagLen < 256 ^ 2 := by
  have hhash := suite.hashLen_le
  have htag := suite.tagLen_lt
  rw [f.length_flight]
  omega

variable {dhe} in
def server (hagrees : f.serverHello.calculateSharedSecret kx provider.secret = some dhe) :
    HonestServer suite kx config provider verifier where
  serverHello := f.serverHello
  hello := f.message
  dhe := dhe
  items := [.messages (noExtensions ++ f.lastMessage suite kx config provider dhe) 0
    (f.flight_fits suite kx config provider dhe)]
  transcript := f.hellos suite kx config provider ++ noExtensions ++
    f.lastMessage suite kx config provider dhe
  noted := { request := none, verifier := verifier }
  hello_lt := by
    rw [f.length_message]
    exact f.short
  hello_reads := f.message_reads suite
  agrees := hagrees
  flies := .finished (noExtensions_takes suite provider _ _)
  few := by
    show 1 < UInt64.size - 1
    decide

end Servers
end HelloFields
end EmbeddedTls
end TWA
