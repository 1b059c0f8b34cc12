import TWA.EmbeddedTls.KeySchedule

/-!
# The tree of secrets

What the key schedule computes, said without its state: the early, the handshake
and the master secret, each extracted from what is derived from the one before
it, and the traffic secrets that hang from the last two.  The operations of the
schedule walk down this tree and never fail.
-/

namespace TWA
namespace EmbeddedTls

open Foundation

namespace KeyTree

section Tree

variable (suite : TlsCipherSuite)

def expandLabel (secret label : List UInt8) (context : Option (List UInt8)) (len : Nat) :
    List UInt8 :=
  suite.expand secret (hkdfLabel len label context) len

def deriveSecret (secret label : List UInt8) (messages : Transcript) : List UInt8 :=
  expandLabel suite secret label (some (suite.hash messages)) suite.hashLen

def earlySecret (psk : Option (List UInt8)) : List UInt8 :=
  suite.extract (KeySchedule.zero suite) (psk.getD (KeySchedule.zero suite))

def handshakeSecret (psk : Option (List UInt8)) (dhe : List UInt8) : List UInt8 :=
  suite.extract (deriveSecret suite (earlySecret suite psk) (ascii "derived") []) dhe

def masterSecret (psk : Option (List UInt8)) (dhe : List UInt8) : List UInt8 :=
  suite.extract (deriveSecret suite (handshakeSecret suite psk dhe) (ascii "derived") [])
    (KeySchedule.zero suite)

def trafficState (secret label : List UInt8) (messages : Transcript) : KeyScheduleState :=
  let traffic := deriveSecret suite secret label messages
  { trafficSecret := some traffic
    counter := 0
    key := expandLabel suite traffic (ascii "key") none suite.keyLen
    iv := expandLabel suite traffic (ascii "iv") none suite.ivLen }

def finishedMac (traffic : List UInt8) (hash : List UInt8) : List UInt8 :=
  suite.hmac (expandLabel suite traffic (ascii "finished") none suite.hashLen) hash

def sharedAt (secret : List UInt8) : SharedState :=
  { secret := deriveSecret suite secret (ascii "derived") [], hkdf := some secret }

theorem length_deriveSecret (secret label : List UInt8) (messages : Transcript) :
    (deriveSecret suite secret label messages).length = suite.hashLen :=
  suite.length_expand _ _ _

end Tree

/-! ## The schedule walks down the tree -/

section Walk

variable {suite : TlsCipherSuite}

theorem deriveSecret_eq {s : SharedState} {secret : List UInt8} (h : s.hkdf = some secret)
    {label : List UInt8} (hlabel : label.length ≤ 12) (messages : Transcript) :
    s.deriveSecret suite label messages = .ok (deriveSecret suite secret label messages) := by
  have hcontext : ((some (suite.hash messages)).getD []).length ≤ 48 := by
    rw [Option.getD_some, suite.length_hash]
    exact suite.hashLen_le
  unfold SharedState.deriveSecret
  rw [h]
  exact makeExpandedHkdfLabel_eq suite secret hlabel hcontext (by omega)

theorem derived_eq {s : SharedState} {secret : List UInt8} (h : s.hkdf = some secret) :
    s.derived suite = .ok (sharedAt suite secret) := by
  unfold SharedState.derived
  rw [deriveSecret_eq h (by decide)]
  show Except.ok { s with secret := _ } = _
  unfold sharedAt
  rw [← h]

theorem fromPrk_eq {prk : List UInt8} (h : prk.length = suite.hashLen) :
    fromPrk suite prk = .ok prk := by
  unfold fromPrk
  rw [if_neg (by omega)]

theorem calculateTrafficSecret_eq {s : SharedState} {secret : List UInt8}
    (h : s.hkdf = some secret) {label : List UInt8} (hlabel : label.length ≤ 12)
    (messages : Transcript) (old : KeyScheduleState) :
    old.calculateTrafficSecret suite label s messages =
      .ok (trafficState suite secret label messages) := by
  have hnone : ((none : Option (List UInt8)).getD []).length ≤ 48 := by decide
  unfold KeyScheduleState.calculateTrafficSecret
  rw [deriveSecret_eq h hlabel]
  show (fromPrk suite _ >>= _) = _
  rw [fromPrk_eq (length_deriveSecret suite _ _ _)]
  show (makeExpandedHkdfLabel _ _ _ _ _ >>= _) = _
  rw [makeExpandedHkdfLabel_eq suite _ (by decide) hnone suite.keyLen_le]
  show (makeExpandedHkdfLabel _ _ _ _ _ >>= _) = _
  rw [makeExpandedHkdfLabel_eq suite _ (by decide) hnone suite.ivLen_le]
  rfl

theorem calculateTrafficSecrets_eq {k : KeySchedule} {secret : List UInt8}
    (h : k.shared.hkdf = some secret) {client server : List UInt8}
    (hclient : client.length ≤ 12) (hserver : server.length ≤ 12) :
    k.calculateTrafficSecrets suite client server =
      .ok { k with
        clientState := { k.clientState with
          state := trafficState suite secret client k.serverState.transcript }
        serverState := { k.serverState with
          state := trafficState suite secret server k.serverState.transcript } } := by
  unfold KeySchedule.calculateTrafficSecrets
  rw [calculateTrafficSecret_eq h hclient]
  show (KeyScheduleState.calculateTrafficSecret _ _ _ _ _ >>= _) = _
  rw [calculateTrafficSecret_eq h hserver]
  rfl

theorem initializeEarlySecret_eq {k : KeySchedule}
    (hzero : k.shared.secret = KeySchedule.zero suite) (psk : Option (List UInt8)) :
    k.initializeEarlySecret suite psk =
      .ok { k with
        shared := sharedAt suite (earlySecret suite psk)
        clientState := { k.clientState with
          binderKey := some (deriveSecret suite (earlySecret suite psk)
            (ascii "ext binder") []) } } := by
  have hkdf : (k.shared.initializeWith suite (psk.getD (KeySchedule.zero suite))).hkdf =
      some (earlySecret suite psk) := by
    unfold SharedState.initializeWith earlySecret
    rw [hzero]
  unfold KeySchedule.initializeEarlySecret
  simp only
  rw [deriveSecret_eq hkdf (by decide)]
  show (fromPrk suite _ >>= _) = _
  rw [fromPrk_eq (length_deriveSecret suite _ _ _)]
  show (SharedState.derived _ _ >>= _) = _
  rw [derived_eq hkdf]
  rfl

theorem initializeHandshakeSecret_eq {k : KeySchedule} {psk : Option (List UInt8)}
    (hearly : k.shared = sharedAt suite (earlySecret suite psk)) (dhe : List UInt8) :
    k.initializeHandshakeSecret suite dhe =
      .ok { k with
        shared := sharedAt suite (handshakeSecret suite psk dhe)
        clientState := { k.clientState with
          state := trafficState suite (handshakeSecret suite psk dhe)
            (ascii "c hs traffic") k.serverState.transcript }
        serverState := { k.serverState with
          state := trafficState suite (handshakeSecret suite psk dhe)
            (ascii "s hs traffic") k.serverState.transcript } } := by
  have hkdf : (k.shared.initializeWith suite dhe).hkdf =
      some (handshakeSecret suite psk dhe) := by
    rw [hearly]
    rfl
  unfold KeySchedule.initializeHandshakeSecret
  simp only
  rw [calculateTrafficSecrets_eq hkdf (by decide) (by decide)]
  show (SharedState.derived _ _ >>= _) = _
  rw [derived_eq hkdf]
  rfl

theorem initializeMasterSecret_eq {k : KeySchedule} {psk : Option (List UInt8)}
    {dhe : List UInt8}
    (hhandshake : k.shared = sharedAt suite (handshakeSecret suite psk dhe)) :
    k.initializeMasterSecret suite =
      .ok { k with
        shared := sharedAt suite (masterSecret suite psk dhe)
        clientState := { k.clientState with
          state := trafficState suite (masterSecret suite psk dhe)
            (ascii "c ap traffic") k.serverState.transcript }
        serverState := { k.serverState with
          state := trafficState suite (masterSecret suite psk dhe)
            (ascii "s ap traffic") k.serverState.transcript } } := by
  have hkdf : (k.shared.initializeWith suite (KeySchedule.zero suite)).hkdf =
      some (masterSecret suite psk dhe) := by
    rw [hhandshake]
    rfl
  unfold KeySchedule.initializeMasterSecret
  simp only
  rw [calculateTrafficSecrets_eq hkdf (by decide) (by decide)]
  show (SharedState.derived _ _ >>= _) = _
  rw [derived_eq hkdf]
  rfl

theorem createClientFinished_eq {k : KeySchedule} {traffic : List UInt8}
    (h : k.clientState.state.trafficSecret = some traffic) :
    k.createClientFinished suite =
      .ok (finishedMac suite traffic (suite.hash k.serverState.transcript)) := by
  unfold KeySchedule.createClientFinished
  rw [h, makeExpandedHkdfLabel_eq suite traffic (by decide) (by decide) (by omega)]
  rfl

theorem verifyServerFinished_eq {s : ReadKeySchedule} {traffic : List UInt8}
    (h : s.state.trafficSecret = some traffic) (verify hash : List UInt8) :
    s.verifyServerFinished suite verify (some hash) =
      .ok (finishedMac suite traffic hash == verify) := by
  unfold ReadKeySchedule.verifyServerFinished
  rw [h, makeExpandedHkdfLabel_eq suite traffic (by decide) (by decide) (by omega)]
  rfl

end Walk
end KeyTree
end EmbeddedTls
end TWA
