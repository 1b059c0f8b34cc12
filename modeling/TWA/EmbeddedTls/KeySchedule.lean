import TWA.EmbeddedTls.ParseBuffer
import TWA.EmbeddedTls.WriteBuffer

/-!
# The key schedule

All secrets of a connection are derived one from the other, from what the two
sides share and from the messages of the handshake.  A hash of messages is
modelled by the messages that have been digested.
-/

namespace TWA
namespace EmbeddedTls

open Foundation
open Foundation.Exec

def ascii (s : String) : List UInt8 :=
  s.toList.map (fun c => UInt8.ofNat c.toNat)

/-- A cipher suite: its sizes, its hash, the key derivation over this hash and the cipher. -/
structure TlsCipherSuite where
  codePoint : Nat
  keyLen : Nat
  ivLen : Nat
  hashLen : Nat
  tagLen : Nat
  hash : List UInt8 -> List UInt8
  hmac : (key message : List UInt8) -> List UInt8
  extract : (salt ikm : List UInt8) -> List UInt8
  expand : (prk info : List UInt8) -> (len : Nat) -> List UInt8
  encrypt : (key nonce aad plain : List UInt8) -> List UInt8
  decrypt : (key nonce aad text : List UInt8) -> Option (List UInt8)
  ivLen_ge : 8 ≤ ivLen
  hashLen_le : hashLen ≤ 48
  tagLen_lt : tagLen < 128
  keyLen_le : keyLen ≤ 255 * hashLen
  ivLen_le : ivLen ≤ 255 * hashLen
  length_hash : forall messages, (hash messages).length = hashLen
  length_hmac : forall key message, (hmac key message).length = hashLen
  length_extract : forall salt ikm, (extract salt ikm).length = hashLen
  length_expand : forall prk info len, (expand prk info len).length = len
  length_encrypt : forall key nonce aad plain,
    (encrypt key nonce aad plain).length = plain.length + tagLen
  length_decrypt : forall key nonce aad text plain,
    decrypt key nonce aad text = some plain -> text.length = plain.length + tagLen
  decrypt_encrypt : forall key nonce aad plain,
    decrypt key nonce aad (encrypt key nonce aad plain) = some plain

abbrev Transcript : Type := List UInt8

/-- A pseudorandom key, once there is one. -/
abbrev Secret : Type := Option (List UInt8)

section Labels

def extendLabel (bytes : List UInt8) (label : List UInt8) :
    Except ProtocolError (List UInt8) :=
  if label.length + bytes.length ≤ 70 then .ok (label ++ bytes) else .error .internalError

def contextBytes : Option (List UInt8) -> List (List UInt8)
  | none => [[0]]
  | some context => [[UInt8.ofNat context.length], context]

def labelParts (len : Nat) (label : List UInt8) (context : Option (List UInt8)) :
    List (List UInt8) :=
  [u16Bytes len, [UInt8.ofNat (6 + label.length)], ascii "tls13 ", label] ++
    contextBytes context

variable (suite : TlsCipherSuite)

def makeExpandedHkdfLabel (secret : Secret) (len : Nat) (label : List UInt8)
    (context : Option (List UInt8)) : Except ProtocolError (List UInt8) := do
  let hkdfLabel <- (labelParts len label context).foldlM (fun done part =>
    extendLabel part done) []
  match secret with
  | none => .error .internalError
  | some prk =>
      if 255 * suite.hashLen < len then .error .cryptoError
      else .ok (suite.expand prk hkdfLabel len)

def fromPrk (prk : List UInt8) : Except ProtocolError (List UInt8) :=
  if prk.length < suite.hashLen then .error .internalError else .ok prk

end Labels

/-! ## Nonces -/

def counterBytes (counter : Nat) : List UInt8 :=
  (List.range 8).map (fun i => UInt8.ofNat (counter / 256 ^ (7 - i)))

/-- The bytes at the end of a block of `len` zeros, written from the last one on. -/
def pad (len : Nat) (input : List UInt8) : List UInt8 :=
  input.reverse.zipIdx.foldl (fun padded byte => padded.set ((len - byte.2) - 1) byte.1)
    (List.replicate len 0)

def getNonce (counter : Nat) (iv : List UInt8) : List UInt8 :=
  (iv.zip (pad iv.length (counterBytes counter))).map (fun b => b.1 ^^^ b.2)

/-! ## The schedule -/

structure SharedState where
  secret : List UInt8
  hkdf : Secret
  deriving DecidableEq, Repr

structure KeyScheduleState where
  trafficSecret : Secret
  counter : Nat
  key : List UInt8
  iv : List UInt8
  deriving DecidableEq, Repr

structure WriteKeySchedule where
  state : KeyScheduleState
  binderKey : Secret
  deriving DecidableEq, Repr

structure ReadKeySchedule where
  state : KeyScheduleState
  transcript : Transcript
  deriving DecidableEq, Repr

structure KeySchedule where
  shared : SharedState
  clientState : WriteKeySchedule
  serverState : ReadKeySchedule
  deriving DecidableEq, Repr

section Schedule

variable (suite : TlsCipherSuite)

namespace SharedState

def initializeWith (ikm : List UInt8) (s : SharedState) : SharedState :=
  { secret := suite.extract s.secret ikm, hkdf := some (suite.extract s.secret ikm) }

def deriveSecret (label : List UInt8) (messages : Transcript) (s : SharedState) :
    Except ProtocolError (List UInt8) :=
  makeExpandedHkdfLabel suite s.hkdf suite.hashLen label (some (suite.hash messages))

def derived (s : SharedState) : Except ProtocolError SharedState := do
  let secret <- s.deriveSecret suite (ascii "derived") []
  .ok { s with secret := secret }

end SharedState

namespace KeyScheduleState

def new : KeyScheduleState :=
  { trafficSecret := none
    counter := 0
    key := List.replicate suite.keyLen 0
    iv := List.replicate suite.ivLen 0 }

def nonce (s : KeyScheduleState) : List UInt8 :=
  getNonce s.counter s.iv

def calculateTrafficSecret (label : List UInt8) (shared : SharedState)
    (transcript : Transcript) (_ : KeyScheduleState) :
    Except ProtocolError KeyScheduleState := do
  let secret <- shared.deriveSecret suite label transcript
  let trafficSecret <- fromPrk suite secret
  let key <- makeExpandedHkdfLabel suite (some trafficSecret) suite.keyLen (ascii "key") none
  let iv <- makeExpandedHkdfLabel suite (some trafficSecret) suite.ivLen (ascii "iv") none
  .ok { trafficSecret := some trafficSecret, counter := 0, key := key, iv := iv }

def incrementCounter (s : KeyScheduleState) : Exec KeyScheduleState := do
  let counter <- TlsConnection.incrementCounter s.counter
  pure { s with counter := counter }

end KeyScheduleState

namespace ReadKeySchedule

/-- The verify data is compared with the code over the hash of the messages before it. -/
def verifyServerFinished (verify : List UInt8) (hash : Option (List UInt8))
    (s : ReadKeySchedule) : Except ProtocolError Bool := do
  let key <- makeExpandedHkdfLabel suite s.state.trafficSecret suite.hashLen
    (ascii "finished") none
  match hash with
  | none => .error .internalError
  | some hash => .ok (suite.hmac key hash == verify)

end ReadKeySchedule

namespace WriteKeySchedule

def createPskBinder (transcript : Transcript) (s : WriteKeySchedule) :
    Except ProtocolError (List UInt8) := do
  let key <- makeExpandedHkdfLabel suite s.binderKey suite.hashLen (ascii "finished") none
  .ok (suite.hmac key (suite.hash transcript))

end WriteKeySchedule

namespace KeySchedule

def zero : List UInt8 :=
  List.replicate suite.hashLen 0

def new : KeySchedule :=
  { shared := { secret := zero suite, hkdf := none }
    clientState := { state := KeyScheduleState.new suite, binderKey := none }
    serverState := { state := KeyScheduleState.new suite, transcript := [] } }

def replaceTranscriptHash (transcript : Transcript) (k : KeySchedule) : KeySchedule :=
  { k with serverState := { k.serverState with transcript := transcript } }

def createClientFinished (k : KeySchedule) : Except ProtocolError (List UInt8) := do
  let key <- makeExpandedHkdfLabel suite k.clientState.state.trafficSecret suite.hashLen
    (ascii "finished") none
  .ok (suite.hmac key (suite.hash k.serverState.transcript))

def initializeEarlySecret (psk : Option (List UInt8)) (k : KeySchedule) :
    Except ProtocolError KeySchedule := do
  let shared := k.shared.initializeWith suite (psk.getD (zero suite))
  let secret <- shared.deriveSecret suite (ascii "ext binder") []
  let binderKey <- fromPrk suite secret
  let shared <- shared.derived suite
  .ok { k with
    shared := shared
    clientState := { k.clientState with binderKey := some binderKey } }

def calculateTrafficSecrets (clientLabel serverLabel : List UInt8) (k : KeySchedule) :
    Except ProtocolError KeySchedule := do
  let client <- k.clientState.state.calculateTrafficSecret suite clientLabel k.shared
    k.serverState.transcript
  let server <- k.serverState.state.calculateTrafficSecret suite serverLabel k.shared
    k.serverState.transcript
  .ok { k with
    clientState := { k.clientState with state := client }
    serverState := { k.serverState with state := server } }

def initializeHandshakeSecret (ikm : List UInt8) (k : KeySchedule) :
    Except ProtocolError KeySchedule := do
  let k := { k with shared := k.shared.initializeWith suite ikm }
  let k <- k.calculateTrafficSecrets suite (ascii "c hs traffic") (ascii "s hs traffic")
  let shared <- k.shared.derived suite
  .ok { k with shared := shared }

def initializeMasterSecret (k : KeySchedule) : Except ProtocolError KeySchedule := do
  let k := { k with shared := k.shared.initializeWith suite (zero suite) }
  let k <- k.calculateTrafficSecrets suite (ascii "c ap traffic") (ascii "s ap traffic")
  let shared <- k.shared.derived suite
  .ok { k with shared := shared }

end KeySchedule
end Schedule

/-! ## Labels -/

def hkdfLabel (len : Nat) (label : List UInt8) (context : Option (List UInt8)) :
    List UInt8 :=
  (labelParts len label context).flatten

theorem length_hkdfLabel (len : Nat) (label : List UInt8) (context : Option (List UInt8)) :
    (hkdfLabel len label context).length =
      10 + label.length + (context.getD []).length := by
  have hsix : (ascii "tls13 ").length = 6 := rfl
  cases context with
  | none =>
      simp only [hkdfLabel, labelParts, contextBytes, u16Bytes, List.flatten_append,
        List.flatten_cons, List.flatten_nil, List.length_append, List.length_cons,
        List.length_nil, hsix, Option.getD_none]
      omega
  | some bytes =>
      simp only [hkdfLabel, labelParts, contextBytes, u16Bytes, List.flatten_append,
        List.flatten_cons, List.flatten_nil, List.length_append, List.length_cons,
        List.length_nil, hsix, Option.getD_some]
      omega

theorem foldlM_extendLabel (parts : List (List UInt8)) (done : List UInt8)
    (h : (done ++ parts.flatten).length ≤ 70) :
    parts.foldlM (fun done part => extendLabel part done) done =
      .ok (done ++ parts.flatten) := by
  induction parts generalizing done with
  | nil => simp [pure, Except.pure]
  | cons part parts ih =>
      rw [List.flatten_cons] at h ⊢
      have hroom : done.length + part.length ≤ 70 := by
        simp only [List.length_append] at h
        omega
      have hstep : extendLabel part done = .ok (done ++ part) := by
        unfold extendLabel
        rw [if_pos hroom]
      rw [List.foldlM_cons, hstep]
      show parts.foldlM _ (done ++ part) = _
      rw [ih (done ++ part) (by rw [List.append_assoc]; exact h), List.append_assoc]

section Labels

variable (suite : TlsCipherSuite) {len : Nat} {label : List UInt8}
  {context : Option (List UInt8)}

theorem makeExpandedHkdfLabel_eq (prk : List UInt8) (hlabel : label.length ≤ 12)
    (hcontext : (context.getD []).length ≤ 48) (hlen : len ≤ 255 * suite.hashLen) :
    makeExpandedHkdfLabel suite (some prk) len label context =
      .ok (suite.expand prk (hkdfLabel len label context) len) := by
  have hroom : ([] ++ (labelParts len label context).flatten).length ≤ 70 := by
    have hlength := length_hkdfLabel len label context
    unfold hkdfLabel at hlength
    rw [List.nil_append, hlength]
    omega
  unfold makeExpandedHkdfLabel
  rw [foldlM_extendLabel _ _ hroom, List.nil_append]
  show (if 255 * suite.hashLen < len then _ else _) = _
  rw [if_neg (by omega)]
  rfl

theorem u16Bytes_injective {m n : Nat} (hm : m < 65536) (hn : n < 65536)
    (h : u16Bytes m = u16Bytes n) : m = n := by
  unfold u16Bytes at h
  rcases List.cons.inj h with ⟨hhigh, hrest⟩
  have hlow := (List.cons.inj hrest).1
  have hhigh' := congrArg UInt8.toNat hhigh
  have hlow' := congrArg UInt8.toNat hlow
  simp only [UInt8.toNat_ofNat'] at hhigh' hlow'
  omega

theorem ofNat_injective {m n : Nat} (hm : m < 256) (hn : n < 256)
    (h : UInt8.ofNat m = UInt8.ofNat n) : m = n := by
  have hnat := congrArg UInt8.toNat h
  simp only [UInt8.toNat_ofNat'] at hnat
  omega

/-- Two secrets with one label are of one length, one name and one context. -/
theorem hkdfLabel_injective {len' : Nat} {label' : List UInt8} {context' : List UInt8}
    {bytes : List UInt8} (hlen : len < 65536) (hlen' : len' < 65536)
    (hlabel : label.length < 250) (hlabel' : label'.length < 250)
    (h : hkdfLabel len label (some bytes) = hkdfLabel len' label' (some context')) :
    len = len' ∧ label = label' ∧ bytes = context' := by
  simp only [hkdfLabel, labelParts, contextBytes, List.flatten_cons, List.flatten_nil,
    List.append_nil, List.cons_append, List.nil_append] at h
  rcases List.append_inj h rfl with ⟨hsize, hrest⟩
  rcases List.cons.inj hrest with ⟨hname, hrest⟩
  have hsame := ofNat_injective (by omega) (by omega) hname
  rcases List.append_inj hrest rfl with ⟨_, hrest⟩
  rcases List.append_inj hrest (by omega) with ⟨hlabels, hrest⟩
  exact ⟨u16Bytes_injective hlen hlen' hsize, hlabels, (List.cons.inj hrest).2⟩

end Labels

/-! ## Nonces differ -/

theorem foldl_pad (rs done : List UInt8) (len : Nat)
    (hfit : rs.length + done.length ≤ len) :
    (rs.zipIdx done.length).foldl
        (fun padded byte => padded.set ((len - byte.2) - 1) byte.1)
        (List.replicate (len - done.length) 0 ++ done) =
      List.replicate (len - done.length - rs.length) 0 ++ rs.reverse ++ done := by
  induction rs generalizing done with
  | nil => simp
  | cons r rs ih =>
      rw [List.length_cons] at hfit
      have hsplit : List.replicate (len - done.length) (0 : UInt8) =
          List.replicate (len - done.length - 1) 0 ++ [0] := by
        rw [← List.replicate_succ']
        congr 1
        omega
      have hset : (List.replicate (len - done.length) 0 ++ done).set
          (len - done.length - 1) r =
            List.replicate (len - (r :: done).length) 0 ++ (r :: done) := by
        rw [hsplit, List.append_assoc, List.set_append_right _ _ (by simp),
          List.length_replicate, Nat.sub_self]
        rfl
      rw [List.zipIdx_cons, List.foldl_cons]
      simp only
      rw [hset]
      have hnext := ih (r :: done) (by rw [List.length_cons]; omega)
      rw [List.length_cons] at hnext ⊢
      rw [hnext, List.reverse_cons]
      simp only [List.append_assoc, List.singleton_append, List.length_cons]
      congr 2
      omega

theorem pad_eq {len : Nat} {input : List UInt8} (h : input.length ≤ len) :
    pad len input = List.replicate (len - input.length) 0 ++ input := by
  have hfold := foldl_pad input.reverse [] len (by simpa using h)
  simpa [pad] using hfold

theorem length_counterBytes (counter : Nat) : (counterBytes counter).length = 8 := by
  simp [counterBytes]

theorem bigEndian_counterBytes {counter : Nat} (h : counter < UInt64.size) :
    ParseBuffer.bigEndian (counterBytes counter) = counter := by
  have hsize : UInt64.size = 18446744073709551616 := rfl
  simp only [ParseBuffer.bigEndian, counterBytes, List.range_succ, List.range_zero,
    List.nil_append, List.cons_append, List.map_cons, List.map_nil, List.foldl_cons,
    List.foldl_nil, UInt8.toNat_ofNat']
  omega

theorem counterBytes_injective {m n : Nat} (hm : m < UInt64.size) (hn : n < UInt64.size)
    (h : counterBytes m = counterBytes n) : m = n := by
  rw [← bigEndian_counterBytes hm, h, bigEndian_counterBytes hn]

theorem map_xor_zip_injective {iv xs ys : List UInt8} (hx : xs.length = iv.length)
    (hy : ys.length = iv.length)
    (h : (iv.zip xs).map (fun b => b.1 ^^^ b.2) = (iv.zip ys).map (fun b => b.1 ^^^ b.2)) :
    xs = ys := by
  induction iv generalizing xs ys with
  | nil =>
      rw [List.length_eq_zero_iff.mp hx, List.length_eq_zero_iff.mp hy]
  | cons v iv ih =>
      cases xs with
      | nil => cases hx
      | cons x xs =>
          cases ys with
          | nil => cases hy
          | cons y ys =>
              rw [List.zip_cons_cons, List.zip_cons_cons, List.map_cons, List.map_cons] at h
              rcases List.cons.inj h with ⟨hhead, htail⟩
              have hxy : x = y := by
                have hmask := congrArg (fun b => v ^^^ b) hhead
                simpa [← UInt8.xor_assoc] using hmask
              rw [hxy, ih (Nat.succ.inj hx) (Nat.succ.inj hy) htail]

theorem getNonce_injective {m n : Nat} {iv : List UInt8} (hiv : 8 ≤ iv.length)
    (hm : m < UInt64.size) (hn : n < UInt64.size) (h : getNonce m iv = getNonce n iv) :
    m = n := by
  have hlen (counter : Nat) : (pad iv.length (counterBytes counter)).length = iv.length := by
    rw [pad_eq (by rw [length_counterBytes]; exact hiv), List.length_append,
      List.length_replicate, length_counterBytes]
    omega
  have hpads := map_xor_zip_injective (hlen m) (hlen n) h
  rw [pad_eq (by rw [length_counterBytes]; exact hiv),
    pad_eq (by rw [length_counterBytes]; exact hiv), length_counterBytes,
    length_counterBytes] at hpads
  exact counterBytes_injective hm hn (List.append_cancel_left hpads)

theorem length_getNonce (counter : Nat) {iv : List UInt8} (hiv : 8 ≤ iv.length) :
    (getNonce counter iv).length = iv.length := by
  unfold getNonce
  rw [List.length_map, List.length_zip, pad_eq (by rw [length_counterBytes]; exact hiv),
    List.length_append, List.length_replicate, length_counterBytes]
  omega

def TlsCipherSuite.aead (suite : TlsCipherSuite) (key iv : List UInt8) : Aead where
  tagLen := suite.tagLen
  encrypt := fun counter aad plain => suite.encrypt key (getNonce counter iv) aad plain
  tagLen_lt := suite.tagLen_lt
  length_encrypt := fun counter aad plain =>
    suite.length_encrypt key (getNonce counter iv) aad plain

/-! ## A cipher suite for examples -/

namespace Transparent

def fitted (len : Nat) (bytes : List UInt8) : List UInt8 :=
  (bytes ++ List.replicate len 0).take len

theorem length_fitted (len : Nat) (bytes : List UInt8) : (fitted len bytes).length = len := by
  unfold fitted
  rw [List.length_take, List.length_append, List.length_replicate]
  omega

def withoutTag (nonce text : List UInt8) : Option (List UInt8) :=
  if 16 ≤ text.length ∧ text.drop (text.length - 16) = fitted 16 nonce then
    some (text.take (text.length - 16))
  else none

theorem eq_of_withoutTag {nonce text plain : List UInt8} (h : withoutTag nonce text = some plain) :
    text = plain ++ fitted 16 nonce := by
  unfold withoutTag at h
  split at h
  · rename_i htag
    cases h
    rw [← htag.2, List.take_append_drop]
  · cases h

theorem withoutTag_append (nonce plain : List UInt8) :
    withoutTag nonce (plain ++ fitted 16 nonce) = some plain := by
  have hlen : (plain ++ fitted 16 nonce).length - 16 = plain.length := by
    rw [List.length_append, length_fitted]
    omega
  unfold withoutTag
  rw [hlen, List.drop_left, List.take_left, if_pos]
  refine ⟨?_, rfl⟩
  rw [List.length_append, length_fitted]
  omega

end Transparent

/-- A cipher suite that hides nothing: a sealed text is the text with its nonce behind it. -/
def transparent : TlsCipherSuite where
  codePoint := 0x1301
  keyLen := 16
  ivLen := 12
  hashLen := 32
  tagLen := 16
  hash := Transparent.fitted 32
  hmac := fun key message => Transparent.fitted 32 (message ++ key)
  extract := fun salt ikm => Transparent.fitted 32 (ikm ++ salt)
  expand := fun prk info len => Transparent.fitted len (info ++ prk)
  encrypt := fun _ nonce _ plain => plain ++ Transparent.fitted 16 nonce
  decrypt := fun _ nonce _ text => Transparent.withoutTag nonce text
  ivLen_ge := by decide
  hashLen_le := by decide
  tagLen_lt := by decide
  keyLen_le := by decide
  ivLen_le := by decide
  length_hash := fun _ => Transparent.length_fitted _ _
  length_hmac := fun _ _ => Transparent.length_fitted _ _
  length_extract := fun _ _ => Transparent.length_fitted _ _
  length_expand := fun _ _ _ => Transparent.length_fitted _ _
  length_encrypt := fun _ nonce _ plain => by
    rw [List.length_append, Transparent.length_fitted]
  length_decrypt := fun _ _ _ _ _ h => by
    rw [Transparent.eq_of_withoutTag h, List.length_append, Transparent.length_fitted]
  decrypt_encrypt := fun _ nonce _ plain => Transparent.withoutTag_append nonce plain

theorem transparent_decrypt {key key' nonce nonce' aad aad' plain plain' : List UInt8}
    (hnonce : nonce.length = 12) (hnonce' : nonce'.length = 12)
    (h : transparent.decrypt key nonce aad (transparent.encrypt key' nonce' aad' plain) =
      some plain') : nonce = nonce' ∧ plain = plain' := by
  have hsame : plain ++ Transparent.fitted 16 nonce' = plain' ++ Transparent.fitted 16 nonce :=
    Transparent.eq_of_withoutTag h
  have htags : (Transparent.fitted 16 nonce').length = (Transparent.fitted 16 nonce).length := by
    rw [Transparent.length_fitted, Transparent.length_fitted]
  rcases List.append_inj' hsame htags with ⟨hplain, htag⟩
  have hfront {xs : List UInt8} (hxs : xs.length = 12) :
      (Transparent.fitted 16 xs).take 12 = xs := by
    unfold Transparent.fitted
    rw [List.take_take, Nat.min_eq_left (by decide), ← hxs, List.take_left]
  constructor
  · rw [← hfront hnonce, ← htag, hfront hnonce']
  · exact hplain

end EmbeddedTls
end TWA
