import TWA.EmbeddedTls.Decryption
import TWA.EmbeddedTls.WriteRecord

/-!
# The handshake

The client says hello, reads what the server answers until the server has shown
that it knows the secret, answers a request for a certificate, and says that it
has finished.  Then both sides go over to the keys of the application.  As for
the two halves of an open connection, the call is modelled by the stretches of
code between two waits.
-/

namespace TWA
namespace EmbeddedTls

open Foundation
open Foundation.Exec

/-! ## What the application provides -/

structure TlsVerifier (sigma : Type) where
  setHostnameVerification : List UInt8 -> sigma -> Except ProtocolError Unit × sigma
  verifyCertificate : Transcript -> CertificateRef -> sigma -> Except ProtocolError Unit × sigma
  verifySignature : CertificateVerifyRef -> sigma -> Except ProtocolError Unit × sigma

structure Signer where
  scheme : SignatureScheme
  sign : List UInt8 -> List UInt8

/-- The random bytes and the secret of a hello stand for the generator of random numbers. -/
structure CryptoProvider (sigma : Type) where
  random : List UInt8
  secret : List UInt8
  verifier : Option (TlsVerifier sigma)
  clientCert : Option CertificateEntryRef
  signer : Except ProtocolError Signer

/-- The provider of the application has no verifier, no certificate and no private key. -/
def UnsecureProvider.new (random secret : List UInt8) : CryptoProvider Unit where
  random := random
  secret := secret
  verifier := none
  clientCert := none
  signer := .error .invalidPrivateKey

/-! ## The state -/

inductive State where
  | clientHello
  | serverHello
  | serverVerify
  | clientCert
  | clientCertVerify
  | clientFinished
  | applicationData
  deriving DecidableEq, Repr

structure Handshake where
  trafficHash : Option Transcript
  secret : Option (List UInt8)
  /-- The context of a request for a certificate. -/
  certificateRequest : Option (List UInt8)
  deriving DecidableEq, Repr

def Handshake.new : Handshake :=
  { trafficHash := none, secret := none, certificateRequest := none }

structure Opening (sigma : Type) where
  opened : Bool
  keySchedule : KeySchedule
  recordReader : RecordReader
  recordWriteBuf : WriteBuffer
  handshake : Handshake
  verifier : sigma
  deriving DecidableEq, Repr

structure Verifying (sigma : Type) where
  state : State
  handshake : Handshake
  verifier : sigma
  deriving DecidableEq, Repr

namespace Opening

inductive After where
  | goesOn (result : Except ProtocolError State)
  | finalizes

inductive Await where
  | reading (state : State) (a : RecordReader.Await)
  | sending (rest : List UInt8) (after : After)
  | flushing (after : After)

inductive Progress where
  | awaits (a : Await)
  | returned (result : Except ProtocolError Unit)

section Calls

variable {sigma : Type} (suite : TlsCipherSuite) (kx : KeyExchange) (config : TlsConfig)
  (provider : CryptoProvider sigma)

def writeRecord (record : ClientRecord) (c : Opening sigma) :
    Exec (Except ProtocolError (List UInt8) × Opening sigma) := do
  let (r, transcript, w) <- c.recordWriteBuf.writeRecord suite kx record
    c.keySchedule.clientState c.keySchedule.serverState.transcript
  pure (r,
    { c with
      recordWriteBuf := w
      keySchedule := c.keySchedule.replaceTranscriptHash transcript })

/-! ### The hello -/

def hello : ClientHello :=
  { config := config, random := provider.random, secret := provider.secret }

def clientHello (c : Opening sigma) :
    Exec (Except ProtocolError (State × List UInt8) × Opening sigma) :=
  match c.keySchedule.initializeEarlySecret suite (config.psk.map Psk.key) with
  | .error e => pure (.error e, c)
  | .ok keys => do
      let record := ClientRecord.handshake (.clientHello (hello config provider)) false
      match <- writeRecord suite kx record { c with keySchedule := keys } with
      | (.error e, c) => pure (.error e, c)
      | (.ok tx, c) =>
          pure (.ok (.serverHello, tx),
            { c with handshake := { c.handshake with secret := some provider.secret } })

def processServerHello (record : ServerRecord) (c : Opening sigma) :
    Except ProtocolError State × Opening sigma :=
  match record with
  | .handshake (.serverHello serverHello) =>
      match c.handshake.secret with
      | none => (.error .invalidHandshake, c)
      | some secret =>
          let c := { c with handshake := { c.handshake with secret := none } }
          match serverHello.calculateSharedSecret kx secret with
          | none => (.error .invalidKeyShare, c)
          | some shared =>
              match c.keySchedule.initializeHandshakeSecret suite shared with
              | .error e => (.error e, c)
              | .ok keys => (.ok .serverVerify, { c with keySchedule := keys })
  | .handshake _ => (.error .invalidHandshake, c)
  | .alert a => (.error (.handshakeAborted a.level a.description), c)
  | _ => (.error (.record .invalidRecord), c)

/-! ### The flight of the server -/

/-- A certificate is looked at only if there is a verifier, and the state changes only when
the server has finished. -/
def verifyHandshake : Callback (Verifying sigma)
  | .handshake .encryptedExtensions, state => pure (.ok (), state)
  | .handshake (.certificate cert), (keys, s) =>
      match provider.verifier with
      | none => pure (.ok (), (keys, s))
      | some verifier =>
          let (r, verifier) := verifier.verifyCertificate keys.transcript cert s.verifier
          pure (r, (keys, { s with verifier := verifier }))
  | .handshake (.certificateVerify verify), (keys, s) =>
      match provider.verifier with
      | none => pure (.ok (), (keys, s))
      | some verifier =>
          let (r, verifier) := verifier.verifySignature verify s.verifier
          pure (r, (keys, { s with verifier := verifier }))
  | .handshake (.certificateRequest request), (keys, s) =>
      if request.requestContext.length ≤ 256 then
        pure (.ok (), (keys,
          { s with handshake :=
            { s.handshake with certificateRequest := some request.requestContext } }))
      else
        pure (.error .insufficientSpace, (keys, s))
  | .handshake (.finished f), (keys, s) =>
      match keys.verifyServerFinished suite f.verify f.hash with
      | .error e => pure (.error e, (keys, s))
      | .ok false => pure (.error .invalidSignature, (keys, s))
      | .ok true =>
          if s.handshake.certificateRequest.isSome then
            pure (.ok (), (keys, { s with state := .clientCert }))
          else
            pure (.ok (), (keys,
              { s with
                state := .clientFinished
                handshake := { s.handshake with trafficHash := some keys.transcript } }))
  | .handshake _, state => pure (.error .invalidHandshake, state)
  | .changeCipherSpec, state => pure (.ok (), state)
  | _, state => pure (.error (.record .invalidRecord), state)

def processServerVerify (record : ServerRecord) (c : Opening sigma) :
    Exec (Except ProtocolError State × List UInt8 × Opening sigma) := do
  let (r, plain, keys, s) <- decryptRecord suite (verifyHandshake suite provider) record
    (c.keySchedule.serverState,
      { state := .serverVerify, handshake := c.handshake, verifier := c.verifier })
  let c :=
    { c with
      keySchedule := { c.keySchedule with serverState := keys }
      handshake := s.handshake
      verifier := s.verifier }
  match r with
  | .error e => pure (.error e, plain, c)
  | .ok _ => pure (.ok s.state, plain, c)

/-! ### The flight of the client -/

def clientCert (c : Opening sigma) :
    Exec (Except ProtocolError (State × List UInt8) × Opening sigma) :=
  let c := { c with handshake :=
    { c.handshake with trafficHash := some c.keySchedule.serverState.transcript } }
  match c.handshake.certificateRequest with
  | none => pure (.error .invalidHandshake, c)
  | some requestContext =>
      let certificate := CertificateRef.withContext requestContext
      let added : Except ProtocolError (State × CertificateRef) :=
        match provider.clientCert with
        | none => .ok (.clientFinished, certificate)
        | some cert => do
            let certificate <- certificate.add cert
            .ok (.clientCertVerify, certificate)
      match added with
      | .error e => pure (.error e, c)
      | .ok (nextState, certificate) => do
          let (r, c) <- writeRecord suite kx (.handshake (.clientCert certificate) true) c
          pure (r.map (fun tx => (nextState, tx)), c)

def contextString : List UInt8 :=
  ascii "TLS 1.3, client CertificateVerify" ++ [0]

/-- What is signed is put together in a vector of 146 bytes. -/
def signedMessage (hash : List UInt8) : Except ProtocolError (List UInt8) :=
  let msg := List.replicate 64 0x20 ++ contextString ++ hash
  if msg.length ≤ 146 then .ok msg else .error .encodeError

/-- A client that has no key to sign with sends an alert, and fails when it has been sent. -/
def clientCertVerify (c : Opening sigma) :
    Exec (Except ProtocolError (Except ProtocolError State × List UInt8) × Opening sigma) :=
  match provider.signer with
  | .error e => do
      let alert : Alert := { level := .warning, description := .closeNotify }
      let (r, c) <- writeRecord suite kx (.alert alert true) c
      pure (r.map (fun tx => (.error e, tx)), c)
  | .ok signer =>
      match signedMessage (suite.hash c.keySchedule.serverState.transcript) with
      | .error e => pure (.error e, c)
      | .ok msg =>
          if h : (signer.sign msg).length ≤ signatureSize then do
            let verify : CertificateVerify :=
              { signatureScheme := signer.scheme
                signature := signer.sign msg
                signature_le := h }
            let (r, c) <- writeRecord suite kx (.handshake (.clientCertVerify verify) true) c
            pure (r.map (fun tx => (.ok .clientFinished, tx)), c)
          else
            panicked

def clientFinished (c : Opening sigma) :
    Exec (Except ProtocolError (List UInt8) × Opening sigma) :=
  match c.keySchedule.createClientFinished suite with
  | .error _ => pure (.error .invalidHandshake, c)
  | .ok verify =>
      writeRecord suite kx (.handshake (.finished { verify := verify, hash := none }) true) c

def clientFinishedFinalize (c : Opening sigma) : Except ProtocolError State × Opening sigma :=
  match c.handshake.trafficHash with
  | none => (.error .invalidHandshake, c)
  | some trafficHash =>
      let c :=
        { c with
          handshake := { c.handshake with trafficHash := none }
          keySchedule := c.keySchedule.replaceTranscriptHash trafficHash }
      match c.keySchedule.initializeMasterSecret suite with
      | .error e => (.error e, c)
      | .ok keys => (.ok .applicationData, { c with keySchedule := keys })

/-! ### The loop -/

def respond (tx : List UInt8) (after : After) (c : Opening sigma) :
    Exec (Progress × Opening sigma) :=
  if tx = [] then do
    let state <- c.keySchedule.clientState.state.incrementCounter
    pure (.awaits (.flushing after),
      { c with keySchedule :=
        { c.keySchedule with clientState :=
          { c.keySchedule.clientState with state := state } } })
  else
    pure (.awaits (.sending tx after), c)

def handleProcessingError (k : State -> Opening sigma -> Exec (Progress × Opening sigma))
    (result : Except ProtocolError State) (c : Opening sigma) :
    Exec (Progress × Opening sigma) :=
  match result with
  | .error (.abortHandshake level description) => do
      let alert : Alert := { level := level, description := description }
      match <- writeRecord suite kx (.alert alert false) c with
      | (.error e, c) => pure (.returned (.error e), c)
      | (.ok tx, c) => respond tx (.goesOn result) c
  | .error e => pure (.returned (.error e), c)
  | .ok state => k state c

def processRecord (state : State) (header : RecordHeader) (body : List UInt8)
    (c : Opening sigma) : Exec (Except ProtocolError (Except ProtocolError State) ×
      Opening sigma) := do
  let start <- sub c.recordReader.decoded header.contentLength
  let (r, transcript) <- ServerRecord.decode suite header start body
    c.keySchedule.serverState.transcript
  let c := { c with keySchedule := c.keySchedule.replaceTranscriptHash transcript }
  match r with
  | .error e => pure (.error e, c)
  | .ok record =>
      if state = .serverHello then
        let (result, c) := processServerHello suite kx record c
        pure (.ok result, c)
      else do
        let (result, plain, c) <- processServerVerify suite provider record c
        pure (.ok result,
          { c with recordReader :=
            { c.recordReader with buf := splice c.recordReader.buf start plain } })

def recordRead (k : State -> Opening sigma -> Exec (Progress × Opening sigma)) (state : State) :
    RecordReader.Progress × RecordReader -> Opening sigma -> Exec (Progress × Opening sigma)
  | (.awaits a, r), c => pure (.awaits (.reading state a), { c with recordReader := r })
  | (.failed e, r), c => pure (.returned (.error (.record e)), { c with recordReader := r })
  | (.ready header body, r), c => do
      match <- processRecord suite kx provider state header body { c with recordReader := r } with
      | (.error e, c) => pure (.returned (.error e), c)
      | (.ok result, c) => handleProcessingError suite kx k result c

/-- The loop of `open` up to its next wait.  Behind a record the reader has nothing of the
next one, so it waits before the loop comes around a third time. -/
def openLoop : Nat -> State -> Opening sigma -> Exec (Progress × Opening sigma)
  | 0, _, _ => .error .diverges
  | _ + 1, .applicationData, c => pure (.returned (.ok ()), { c with opened := true })
  | _ + 1, .clientHello, c => do
      match <- clientHello suite kx config provider c with
      | (.error e, c) => pure (.returned (.error e), c)
      | (.ok (state, tx), c) => respond tx (.goesOn (.ok state)) c
  | _ + 1, .clientCert, c => do
      match <- clientCert suite kx provider c with
      | (.error e, c) => pure (.returned (.error e), c)
      | (.ok (state, tx), c) => respond tx (.goesOn (.ok state)) c
  | _ + 1, .clientCertVerify, c => do
      match <- clientCertVerify suite kx provider c with
      | (.error e, c) => pure (.returned (.error e), c)
      | (.ok (result, tx), c) => respond tx (.goesOn result) c
  | _ + 1, .clientFinished, c => do
      match <- clientFinished suite kx c with
      | (.error e, c) => pure (.returned (.error e), c)
      | (.ok tx, c) => respond tx .finalizes c
  | fuel + 1, .serverHello, c => do
      let progress <- RecordReader.read c.recordReader
      recordRead suite kx provider (openLoop fuel) .serverHello progress c
  | fuel + 1, .serverVerify, c => do
      let progress <- RecordReader.read c.recordReader
      recordRead suite kx provider (openLoop fuel) .serverVerify progress c

def call (c : Opening sigma) : Exec (Progress × Opening sigma) :=
  let c := { c with handshake := Handshake.new }
  match provider.verifier, config.serverName with
  | some verifier, some serverName =>
      match verifier.setHostnameVerification serverName c.verifier with
      | (.error e, v) => pure (.returned (.error e), { c with verifier := v })
      | (.ok _, v) => openLoop suite kx config provider 2 .clientHello { c with verifier := v }
  | _, _ => openLoop suite kx config provider 2 .clientHello c

def flushed (after : After) (c : Opening sigma) : Exec (Progress × Opening sigma) :=
  let (result, c) :=
    match after with
    | .goesOn result => (result, c)
    | .finalizes => clientFinishedFinalize suite c
  match result with
  | .error e => pure (.returned (.error e), c)
  | .ok state => openLoop suite kx config provider 2 state c

def arrived (bytes : List UInt8) (state : State) (a : RecordReader.Await) (c : Opening sigma) :
    Exec (Progress × Opening sigma) := do
  let progress <- RecordReader.resume bytes a c.recordReader
  recordRead suite kx provider (openLoop suite kx config provider 2) state progress c

end Calls

/-! ## The call and its transport -/

structure System (sigma : Type) where
  conn : Opening sigma
  /-- The future of the call waits here. -/
  future : Option Await
  /-- What the transport has not yet handed over. -/
  stream : List UInt8
  /-- Ghost: what the transport has taken. -/
  wire : List UInt8
  /-- Ghost: what the call has returned. -/
  result : Option (Except ProtocolError Unit)

inductive Event where
  | called
  /-- The transport reads `n` bytes. -/
  | arrived (n : Nat)
  /-- The transport takes `n` bytes. -/
  | wrote (n : Nat)
  | flushed
  /-- The transport reports an error or the end of the stream. -/
  | transportFailed
  deriving DecidableEq, Repr

variable {sigma : Type}

def Enabled (e : Event) (s : System sigma) : Prop :=
  match e with
  | .called => s.future = none ∧ s.result = none
  | .arrived n =>
      exists state a, s.future = some (.reading state a) ∧ 0 < n ∧
        n ≤ a.requested s.conn.recordReader ∧ n ≤ s.stream.length
  | .wrote n => exists rest after, s.future = some (.sending rest after) ∧ 0 < n ∧ n ≤ rest.length
  | .flushed => exists after, s.future = some (.flushing after)
  | .transportFailed => s.future ≠ none

def settle (s : System sigma) : Progress × Opening sigma -> System sigma
  | (.awaits a, c) => { s with conn := c, future := some a }
  | (.returned result, c) => { s with conn := c, future := none, result := some result }

def next (suite : TlsCipherSuite) (kx : KeyExchange) (config : TlsConfig)
    (provider : CryptoProvider sigma) (e : Event) (s : System sigma) : Exec (System sigma) :=
  match e, s.future with
  | .called, _ => do
      let result <- call suite kx config provider s.conn
      pure (settle s result)
  | .arrived n, some (.reading state a) => do
      let result <- arrived suite kx config provider (s.stream.take n) state a s.conn
      pure (settle { s with stream := s.stream.drop n } result)
  | .wrote n, some (.sending rest after) => do
      let result <- respond (rest.drop n) after s.conn
      pure (settle { s with wire := s.wire ++ rest.take n } result)
  | .flushed, some (.flushing after) => do
      let result <- flushed suite kx config provider after s.conn
      pure (settle s result)
  | .transportFailed, _ =>
      pure { s with future := none, result := some (.error (.record .io)) }
  | _, _ => pure s

def step (suite : TlsCipherSuite) (kx : KeyExchange) (config : TlsConfig)
    (provider : CryptoProvider sigma) (e : Event) (s t : System sigma) : Prop :=
  Enabled e s ∧ next suite kx config provider e s = .ok t

def ready (e : Event) (s : System sigma) : Bool :=
  match e, s.future with
  | .called, none => s.result.isNone
  | .arrived n, some (.reading _ a) =>
      decide (0 < n ∧ n ≤ a.requested s.conn.recordReader ∧ n ≤ s.stream.length)
  | .wrote n, some (.sending rest _) => decide (0 < n ∧ n ≤ rest.length)
  | .flushed, some (.flushing _) => true
  | .transportFailed, some _ => true
  | _, _ => false

theorem ready_iff (e : Event) (s : System sigma) : ready e s = true <-> Enabled e s := by
  unfold ready Enabled
  cases e <;> rcases s.future with _ | ⟨state, a⟩ | ⟨rest, after⟩ | ⟨after⟩ <;> simp

def perform (suite : TlsCipherSuite) (kx : KeyExchange) (config : TlsConfig)
    (provider : CryptoProvider sigma) (s : System sigma) (e : Event) : Option (System sigma) :=
  if ready e s then (next suite kx config provider e s).toOption else none

theorem perform_step {suite : TlsCipherSuite} {kx : KeyExchange} {config : TlsConfig}
    {provider : CryptoProvider sigma} (s : System sigma) (e : Event) (t : System sigma)
    (h : perform suite kx config provider s e = some t) :
    step suite kx config provider e s t := by
  unfold perform at h
  by_cases hready : ready e s = true
  · rw [if_pos hready] at h
    refine ⟨(ready_iff e s).mp hready, ?_⟩
    cases hnext : next suite kx config provider e s with
    | error f =>
        rw [hnext] at h
        cases h
    | ok u =>
        rw [hnext] at h
        cases h
        rfl
  · rw [if_neg hready] at h
    cases h

def start (suite : TlsCipherSuite) (readBuf writeBuf : List UInt8) (verifier : sigma)
    (stream : List UInt8) : System sigma :=
  { conn :=
      { opened := false
        keySchedule := KeySchedule.new suite
        recordReader := RecordReader.new readBuf
        recordWriteBuf := WriteBuffer.new writeBuf
        handshake := Handshake.new
        verifier := verifier }
    future := none
    stream := stream
    wire := []
    result := none }

end Opening
end EmbeddedTls
end TWA
