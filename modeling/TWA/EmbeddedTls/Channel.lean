import Mathlib.Data.List.Infix
import Mathlib.Data.List.Nodup
import TWA.EmbeddedTls.Delivery
import TWA.EmbeddedTls.SendResumption

/-!
# From one end to the other

What the sending half seals is what a reading half under the same keys opens.  The
two are put behind one another, with the bytes that the transport has taken from
the first as the stream of the second, and take their steps in any order.
-/

namespace TWA
namespace EmbeddedTls

open Foundation
open Foundation.Exec
open ReadHalf (sampleKeys)

/-! ## The sizes of what is sealed -/

namespace WriteBuffer

variable {w w' : WriteBuffer}

theorem length_append {bytes : List UInt8} {n : Nat} (h : append bytes w = .ok (n, w')) :
    w'.buffer.length = w.buffer.length := by
  unfold append at h
  rcases bind_eq_ok.mp h with ⟨room, _, hrest⟩
  simp only at hrest
  split at hrest
  · rcases bind_eq_ok.mp hrest with ⟨part, hslice, hend⟩
    cases hend
    unfold slice at hslice
    split at hslice
    · rename_i hfit
      apply length_splice
      rw [List.length_take]
      omega
    · cases hslice
  · cases hrest
    rfl

theorem length_startRecord {header : ClientRecordHeader} {r : Except TlsError Unit}
    (h : startRecord header w = .ok (r, w')) : w'.buffer.length = w.buffer.length := by
  unfold startRecord at h
  simp only at h
  rcases bind_eq_ok.mp h with ⟨room, hroom, hrest⟩
  rcases sub_eq_ok.mp hroom with ⟨hpos, hsize⟩
  split at hrest
  · cases hrest
    rfl
  · split at hrest
    · cases hrest
      rfl
    · cases hrest
      apply length_splice
      rw [List.length_append]
      unfold u16Bytes
      rw [List.length_cons, List.length_singleton]
      omega

theorem length_sealContent {aead : Aead} {counter : Nat} {header : ClientRecordHeader}
    {buffer sealedBuffer : List UInt8} {pos len : Nat}
    (h : sealContent aead counter header buffer pos = .ok (.ok (sealedBuffer, len))) :
    sealedBuffer.length = buffer.length := by
  unfold sealContent at h
  split at h
  · cases h
    rfl
  · rcases bind_eq_ok.mp h with ⟨room, _, hrest⟩
    split at hrest
    · cases hrest
    · rcases bind_eq_ok.mp hrest with ⟨stored, hstore, hrest⟩
      rcases bind_eq_ok.mp hrest with ⟨len', _, hrest⟩
      rcases bind_eq_ok.mp hrest with ⟨plain, _, hrest⟩
      have hstored := length_store hstore
      split at hrest
      · cases hrest
      · simp only at hrest
        split at hrest
        · cases hrest
        · rename_i hfit
          cases hrest
          rw [length_splice (by omega), hstored]

theorem length_closeRecordPending {aead : Aead} {counter : Nat} {r : Except TlsError Unit}
    (h : closeRecordPending aead counter w = .ok (r, w')) :
    w'.buffer.length = w.buffer.length := by
  unfold closeRecordPending closeRecord at h
  cases hheader : w.currentHeader with
  | none =>
      rw [hheader] at h
      cases h
  | some header =>
      rw [hheader] at h
      rcases bind_eq_ok.mp h with ⟨⟨answer, w1⟩, hclose, hend⟩
      have hsame : w1.buffer.length = w.buffer.length := by
        rcases bind_eq_ok.mp hclose with ⟨answer', hseal, hrest⟩
        cases answer' with
        | error e =>
            cases hrest
            rfl
        | ok sealedContent =>
            rcases bind_eq_ok.mp hrest with ⟨len, _, hrest⟩
            rcases bind_eq_ok.mp hrest with ⟨high, hhigh, hrest⟩
            rcases bind_eq_ok.mp hrest with ⟨low, hlow, hrest⟩
            rcases bind_eq_ok.mp hrest with ⟨_, _, hrest⟩
            cases hrest
            show low.length = w.buffer.length
            rw [length_store hlow, length_store hhigh]
            exact length_sealContent hseal
      cases answer with
      | error e =>
          cases hend
          exact hsame
      | ok len =>
          cases hend
          exact hsame

end WriteBuffer

namespace TlsConnection

structure Sized (size : Nat) (c : TlsConnection) : Prop where
  buffer : c.writeBuf.buffer.length = size
  counter_lt : c.counter < UInt64.size

section Sizes

variable {aead : Aead} {size : Nat} {c : TlsConnection} {result : Progress × TlsConnection}

theorem sendLoop_sized {caller : Caller}
    {k : TlsConnection -> Exec (Progress × TlsConnection)} {wrote : Bool} (h : Sized size c)
    (hk : forall c', Sized size c' -> forall result, k c' = .ok result -> Sized size result.2)
    (hrun : sendLoop caller k wrote c = .ok result) : Sized size result.2 := by
  unfold sendLoop at hrun
  rcases bind_eq_ok.mp hrun with ⟨remaining, _, hrest⟩
  split at hrest
  · rcases bind_eq_ok.mp hrest with ⟨_, _, hend⟩
    cases hend
    exact h
  · simp only at hrest
    split at hrest
    · cases hrest
      exact ⟨h.buffer, h.counter_lt⟩
    · refine hk _ ?_ result hrest
      exact ⟨h.buffer, h.counter_lt⟩

theorem flushWith_sized {caller : Caller}
    {k : TlsConnection -> Exec (Progress × TlsConnection)} (h : Sized size c)
    (hk : forall c', Sized size c' -> forall result, k c' = .ok result -> Sized size result.2)
    (hrun : flushWith aead caller k c = .ok result) : Sized size result.2 := by
  unfold flushWith at hrun
  split at hrun
  · exact sendLoop_sized h hk hrun
  · rcases bind_eq_ok.mp hrun with ⟨⟨answer, w⟩, hclose, hrest⟩
    have hsize := WriteBuffer.length_closeRecordPending hclose
    rw [h.buffer] at hsize
    cases answer with
    | error e =>
        cases hrest
        exact ⟨hsize, h.counter_lt⟩
    | ok _ =>
        rcases bind_eq_ok.mp hrest with ⟨counter, hcounter, hrest⟩
        have hfit : counter < UInt64.size := by
          unfold incrementCounter at hcounter
          split at hcounter
          · cases hcounter
            assumption
          · cases hcounter
        exact sendLoop_sized ⟨hsize, hfit⟩ hk hrest

theorem appendStage_sized {bytes : List UInt8} (h : Sized size c)
    (hrun : appendStage aead bytes c = .ok result) : Sized size result.2 := by
  unfold appendStage at hrun
  rcases bind_eq_ok.mp hrun with ⟨⟨buffered, w⟩, happend, hrest⟩
  have hsize := WriteBuffer.length_append happend
  rw [h.buffer] at hsize
  simp only at hrest
  rcases bind_eq_ok.mp hrest with ⟨full, _, hend⟩
  split at hend
  · refine flushWith_sized ?_ ?_ hend
    · exact ⟨hsize, h.counter_lt⟩
    · intro c' hc' result' hk
      cases hk
      exact hc'
  · cases hend
    exact ⟨hsize, h.counter_lt⟩

theorem afterFlush_sized {caller : Caller} (h : Sized size c)
    (hrun : afterFlush aead caller c = .ok result) : Sized size result.2 := by
  cases caller with
  | flush =>
      cases hrun
      exact h
  | afterAppend buffered =>
      cases hrun
      exact h
  | beforeRecord bytes =>
      rcases bind_eq_ok.mp hrun with ⟨⟨answer, w⟩, hstart, hrest⟩
      have hsize := WriteBuffer.length_startRecord hstart
      rw [h.buffer] at hsize
      cases answer with
      | error e =>
          cases hrest
          exact ⟨hsize, h.counter_lt⟩
      | ok _ =>
          refine appendStage_sized ?_ hrest
          exact ⟨hsize, h.counter_lt⟩

theorem step_sized {e : Event} {s t : State} (h : Sized size s.conn)
    (hstep : step aead e s t) : Sized size t.conn := by
  rcases hstep with ⟨_, hnext⟩
  have hsettle {s : State} {result : Progress × TlsConnection} (hr : Sized size result.2) :
      Sized size (settle s result).conn := by
    rcases result with ⟨progress, c⟩
    cases progress <;> exact hr
  have hafter (caller : Caller) : forall c', Sized size c' -> forall result,
      afterFlush aead caller c' = .ok result -> Sized size result.2 :=
    fun c' hc' result hk => afterFlush_sized hc' hk
  cases e with
  | writeCalled bytes =>
      rcases bind_eq_ok.mp hnext with ⟨result, hrun, hend⟩
      cases hend
      apply hsettle
      unfold write at hrun
      split at hrun
      · split at hrun
        · exact appendStage_sized h hrun
        · exact flushWith_sized h (hafter _) hrun
      · cases hrun
        exact h
  | flushCalled =>
      rcases bind_eq_ok.mp hnext with ⟨result, hrun, hend⟩
      cases hend
      exact hsettle (flushWith_sized h (hafter _) hrun)
  | took n =>
      cases hfuture : s.future with
      | none =>
          simp only [next, hfuture] at hnext
          cases hnext
          exact h
      | some a =>
          simp only [next, hfuture] at hnext
          rcases bind_eq_ok.mp hnext with ⟨result, hrun, hend⟩
          cases hend
          apply hsettle
          cases a with
          | sending caller =>
              refine sendLoop_sized ?_ (hafter caller) hrun
              exact ⟨h.buffer, h.counter_lt⟩
          | flushing caller => exact afterFlush_sized h hrun
  | transportFlushed =>
      cases hfuture : s.future with
      | none =>
          simp only [next, hfuture] at hnext
          cases hnext
          exact h
      | some a =>
          simp only [next, hfuture] at hnext
          rcases bind_eq_ok.mp hnext with ⟨result, hrun, hend⟩
          cases hend
          apply hsettle
          cases a with
          | sending caller =>
              refine sendLoop_sized ?_ (hafter caller) hrun
              exact ⟨h.buffer, h.counter_lt⟩
          | flushing caller => exact afterFlush_sized h hrun
  | dropped =>
      cases hnext
      exact h
  | transportFailed =>
      cases hnext
      exact h

/-! ## Nonces -/

variable {suite : TlsCipherSuite} {key iv buffer : List UInt8} {policy : FlushPolicy}
  {events : List Event} {s : State}

theorem run_sends (hbuffer : tlsRecordOverhead < buffer.length)
    (hrun : Run (step aead) (start buffer policy) events s) : Sends aead s :=
  hrun.invariant (P := Sends aead) (fun _ _ _ h hstep => step_sends h hstep)
    (start_sends hbuffer policy)

theorem run_sized (hrun : Run (step aead) (start buffer policy) events s) :
    Sized buffer.length s.conn := by
  refine hrun.invariant (P := fun s => Sized buffer.length s.conn)
    (fun _ _ _ h hstep => step_sized h hstep) ⟨rfl, ?_⟩
  show 0 < UInt64.size
  decide

/-- However writes, flushes and cancellations follow one another, no two records are sealed
under one nonce. -/
theorem nonces_differ (hbuffer : tlsRecordOverhead < buffer.length)
    (hiv : iv.length = suite.ivLen)
    (hrun : Run (step (suite.aead key iv)) (start buffer policy) events s) :
    (s.conn.sealed.map (fun r => getNonce r.1 iv)).Nodup ∧
      forall nonce, nonce ∈ s.conn.sealed.map (fun r => getNonce r.1 iv) ->
        nonce.length = suite.ivLen := by
  have horderly := (run_sends hbuffer hrun).orderly
  have hfit := (run_sized hrun).counter_lt
  have hlong : 8 ≤ iv.length := by
    rw [hiv]
    exact suite.ivLen_ge
  rw [horderly.counter_eq] at hfit
  constructor
  · have hmap : s.conn.sealed.map (fun r => getNonce r.1 iv) =
        (List.range s.conn.sealed.length).map (fun i => getNonce i iv) := by
      rw [← horderly.counters, List.map_map]
      rfl
    rw [hmap]
    refine List.Nodup.map_on ?_ List.nodup_range
    intro i hi j hj hsame
    rw [List.mem_range] at hi hj
    exact getNonce_injective hlong (by omega) (by omega) hsame
  · intro nonce hnonce
    rcases List.mem_map.mp hnonce with ⟨r, _, hr⟩
    rw [← hr, length_getNonce r.1 hlong, hiv]

end Sizes

set_option maxRecDepth 4000 in
/-- Two records are sealed. -/
theorem nonces_differ_sample :
    exists s, Run (step (transparent.aead [] (List.replicate 12 7)))
        (start (List.replicate 140 0) .relaxed)
        [.writeCalled [1], .flushCalled, .took 23, .writeCalled [2], .flushCalled] s ∧
      s.conn.sealed = [(0, [1]), (1, [2])] ∧
      (s.conn.sealed.map (fun r => getNonce r.1 (List.replicate 12 7))).Nodup := by
  have hruns : exists s, Run (step (transparent.aead [] (List.replicate 12 7)))
        (start (List.replicate 140 0) .relaxed)
        [.writeCalled [1], .flushCalled, .took 23, .writeCalled [2], .flushCalled] s ∧
      s.conn.sealed = [(0, [1]), (1, [2])] :=
    ⟨_, .cons ⟨rfl, rfl⟩ (.cons ⟨rfl, rfl⟩
      (.cons ⟨⟨⟨_, rfl⟩, by decide, by decide⟩, rfl⟩
        (.cons ⟨rfl, rfl⟩ (.cons ⟨rfl, rfl⟩ (.nil _))))), rfl⟩
  rcases hruns with ⟨s, hrun, hsealed⟩
  have hbuffer : tlsRecordOverhead < (List.replicate 140 (0 : UInt8)).length := by decide
  exact ⟨s, hrun, hsealed, (nonces_differ hbuffer rfl hrun).1⟩

end TlsConnection

/-! ## A longer stream -/

namespace ReadHalf

def State.extend (more : List UInt8) (s : State) : State :=
  { s with stream := s.stream ++ more }

section Extending

variable {suite : TlsCipherSuite} {e : Event} {s t : State} {es : List Event}

theorem settle_extend (caller : Caller) (more : List UInt8) (s : State)
    (result : Progress × ReadHalf) :
    settle caller (s.extend more) result = (settle caller s result).extend more := by
  rcases result with ⟨progress, c⟩
  cases progress with
  | awaits a => rfl
  | returned answer => cases answer <;> rfl

theorem Enabled.extend (h : Enabled e s) (more : List UInt8) : Enabled e (s.extend more) := by
  cases e with
  | arrived n =>
      rcases h with ⟨caller, a, hfuture, hpos, hrequested, hstream⟩
      refine ⟨caller, a, hfuture, hpos, hrequested, ?_⟩
      show n ≤ (s.stream ++ more).length
      rw [List.length_append]
      omega
  | called caller => exact h
  | consumed amt => exact h
  | dropped => exact h
  | transportFailed => exact h

theorem next_extend (suite : TlsCipherSuite) (h : Enabled e s) (more : List UInt8) :
    next suite e (s.extend more) = (next suite e s).map (State.extend more) := by
  cases e with
  | called caller =>
      show (call suite caller s.half >>= _) = _
      unfold next
      simp only
      cases call suite caller s.half with
      | error f => rfl
      | ok result =>
          show Except.ok (settle caller (s.extend more) result) = _
          rw [settle_extend]
          rfl
  | consumed amt =>
      show (consume amt s.half >>= _) = _
      unfold next
      simp only
      cases consume amt s.half <;> rfl
  | arrived n =>
      rcases h with ⟨caller, a, hfuture, _, _, hstream⟩
      rcases s with ⟨half, future, stream, got, errors⟩
      simp only at hfuture hstream
      subst hfuture
      show (resume suite ((stream ++ more).take n) a caller half >>= fun result =>
        pure (settle caller ⟨half, some (caller, a), (stream ++ more).drop n, got, errors⟩
          result)) =
        (resume suite (stream.take n) a caller half >>= fun result =>
          pure (settle caller ⟨half, some (caller, a), stream.drop n, got, errors⟩
            result)).map (State.extend more)
      rw [List.take_append_of_le_length hstream, List.drop_append_of_le_length hstream]
      cases resume suite (stream.take n) a caller half with
      | error f => rfl
      | ok result =>
          simp only [ok_bind, pure_eq_ok]
          exact congrArg Except.ok (settle_extend caller more
            ⟨half, some (caller, a), stream.drop n, got, errors⟩ result)
  | dropped => rfl
  | transportFailed => rfl

theorem run_extend (hrun : Run (step suite) s es t) (more : List UInt8) :
    Run (step suite) (s.extend more) es (t.extend more) := by
  induction hrun with
  | nil s => exact Run.nil _
  | cons hstep _ ih =>
      refine Run.cons ⟨hstep.1.extend more, ?_⟩ ih
      rw [next_extend suite hstep.1, hstep.2]
      rfl

end Extending
end ReadHalf

/-! ## The records of the sending half as texts -/

def dataText (suite : TlsCipherSuite) (content : List UInt8)
    (h : content.length + 1 + suite.tagLen < 256 ^ 2) : ServerText suite where
  content := .data content
  padding := 0
  fits := by
    have hlen : ((ServerContent.data content).plain 0).length = content.length + 1 := by
      simp [ServerContent.plain]
    rw [hlen]
    exact h

section Texts

variable {suite : TlsCipherSuite} {content : List UInt8}

theorem plain_dataText (h : content.length + 1 + suite.tagLen < 256 ^ 2) :
    (dataText suite content h).plain = content ++ [ContentType.applicationData.toByte] :=
  List.append_nil _

theorem wire_sealed_dataText (key iv : List UInt8) (i : Nat)
    (h : content.length + 1 + suite.tagLen < 256 ^ 2) :
    ((dataText suite content h).sealed key iv i).wire =
      sealRecord (suite.aead key iv) i content := by
  have hplain := plain_dataText h
  have hheader : (sealedHeader suite (content ++ [ContentType.applicationData.toByte])).header =
      WriteBuffer.additionalData (content.length + 1 + suite.tagLen) := by
    unfold sealedHeader WriteBuffer.additionalData
    simp only [List.length_append, List.length_singleton]
    rfl
  have hrecord : (sealedRecord suite key iv i (dataText suite content h).plain
      (dataText suite content h).fits).wire = (sealedHeader suite
        (dataText suite content h).plain).header ++ suite.encrypt key (getNonce i iv)
          (sealedHeader suite (dataText suite content h).plain).header
            (dataText suite content h).plain := rfl
  unfold ServerText.sealed
  rw [hrecord, hplain, hheader]
  rfl

theorem texts_of_records (key iv : List UInt8) (size i : Nat)
    (records : List (Nat × List UInt8))
    (hcounters : records.map Prod.fst = List.range' i records.length)
    (hfit : forall r, r ∈ records -> r.2.length + 1 + suite.tagLen < 256 ^ 2)
    (hroom : forall r, r ∈ records -> r.2.length + 1 + suite.tagLen ≤ size) :
    exists texts : List (ServerText suite),
      texts.length = records.length ∧ ReadHalf.AllFit size texts ∧
        texts.map (fun t => t.content.bytes) = records.map Prod.snd ∧
        wireOf (ServerText.sealAll key iv i texts) =
          TlsConnection.wireOf (suite.aead key iv) records := by
  induction records generalizing i with
  | nil =>
      refine ⟨[], rfl, ?_, rfl, rfl⟩
      intro t ht
      cases ht
  | cons r records ih =>
      rw [List.map_cons, List.length_cons, List.range'_succ] at hcounters
      rcases List.cons.inj hcounters with ⟨hnumber, hrest⟩
      have hr := hfit r List.mem_cons_self
      rcases ih (i + 1) hrest (fun r' hr' => hfit r' (List.mem_cons_of_mem r hr'))
        (fun r' hr' => hroom r' (List.mem_cons_of_mem r hr')) with
        ⟨texts, hlen, hall, hbytes, hwire⟩
      refine ⟨dataText suite r.2 hr :: texts, ?_, ?_, ?_, ?_⟩
      · rw [List.length_cons, List.length_cons, hlen]
      · intro t ht
        rcases List.mem_cons.mp ht with hhead | htail
        · rw [hhead, plain_dataText hr, List.length_append, List.length_singleton]
          exact hroom r List.mem_cons_self
        · exact hall t htail
      · rw [List.map_cons, List.map_cons, hbytes]
        rfl
      · have hhead := wire_sealed_dataText key iv i hr
        unfold wireOf TlsConnection.wireOf at hwire ⊢
        rw [ServerText.sealAll, List.flatMap_cons, List.flatMap_cons, hwire, hhead, hnumber]

end Texts

/-! ## The link -/

/-- A sending and a reading half; the stream of the second is what the transport has taken
from the first and has not yet handed over. -/
structure Link where
  sender : TlsConnection.State
  receiver : ReadHalf.State

namespace Link

inductive Move where
  | sends (e : TlsConnection.Event)
  | receives (e : ReadHalf.Event)

/-- What the transport has taken in a step of the sender is added to the stream. -/
def step (suite : TlsCipherSuite) (key iv : List UInt8) : Move -> Link -> Link -> Prop
  | .sends e, s, t =>
      TlsConnection.step (suite.aead key iv) e s.sender t.sender ∧
        t.receiver = s.receiver.extend (t.sender.taken.drop s.sender.taken.length)
  | .receives e, s, t => ReadHalf.step suite e s.receiver t.receiver ∧ t.sender = s.sender

def start (buffer : List UInt8) (policy : FlushPolicy) (keys : ReadKeySchedule)
    (reader : RecordReader) : Link :=
  { sender := TlsConnection.start buffer policy
    receiver := ReadHalf.start keys reader [] }

section Runs

variable {suite : TlsCipherSuite} {key iv buffer : List UInt8} {policy : FlushPolicy}
  {keys : ReadKeySchedule} {reader : RecordReader} {moves : List Move} {s : Link}

theorem taken_grows {aead : Aead} {e : TlsConnection.Event} {s t : TlsConnection.State}
    (hstep : TlsConnection.step aead e s t) : s.taken <+: t.taken := by
  have hsettle (s : TlsConnection.State) (result : TlsConnection.Progress × TlsConnection) :
      (TlsConnection.settle s result).taken = s.taken := by
    rcases result with ⟨progress, c⟩
    cases progress <;> rfl
  rcases hstep with ⟨_, hnext⟩
  cases e with
  | writeCalled bytes =>
      rcases bind_eq_ok.mp hnext with ⟨result, _, hend⟩
      cases hend
      rw [hsettle]
  | flushCalled =>
      rcases bind_eq_ok.mp hnext with ⟨result, _, hend⟩
      cases hend
      rw [hsettle]
  | took n =>
      cases hfuture : s.future with
      | none =>
          simp only [TlsConnection.next, hfuture] at hnext
          cases hnext
          exact List.prefix_refl _
      | some a =>
          simp only [TlsConnection.next, hfuture] at hnext
          rcases bind_eq_ok.mp hnext with ⟨result, _, hend⟩
          cases hend
          rw [hsettle]
          exact List.prefix_append _ _
  | transportFlushed =>
      cases hfuture : s.future with
      | none =>
          simp only [TlsConnection.next, hfuture] at hnext
          cases hnext
          exact List.prefix_refl _
      | some a =>
          simp only [TlsConnection.next, hfuture] at hnext
          rcases bind_eq_ok.mp hnext with ⟨result, _, hend⟩
          cases hend
          rw [hsettle]
  | dropped =>
      cases hnext
      exact List.prefix_refl _
  | transportFailed =>
      cases hnext
      exact List.prefix_refl _

theorem run_split (hrun : Run (step suite key iv) (start buffer policy keys reader) moves s) :
    (exists es, Run (TlsConnection.step (suite.aead key iv)) (TlsConnection.start buffer policy)
      es s.sender) ∧
      exists es, Run (ReadHalf.step suite) (ReadHalf.start keys reader s.sender.taken) es
        s.receiver := by
  refine hrun.invariant (P := fun s =>
    (exists es, Run (TlsConnection.step (suite.aead key iv)) (TlsConnection.start buffer policy)
      es s.sender) ∧
      exists es, Run (ReadHalf.step suite) (ReadHalf.start keys reader s.sender.taken) es
        s.receiver) ?_ ⟨⟨[], Run.nil _⟩, [], Run.nil _⟩
  rintro m s t ⟨⟨es, hsends⟩, es', hreceives⟩ hstep
  cases m with
  | sends e =>
      rcases hstep with ⟨hstep, hreceiver⟩
      refine ⟨⟨es ++ [e], hsends.snoc hstep⟩, es', ?_⟩
      have htaken : s.sender.taken ++ t.sender.taken.drop s.sender.taken.length =
          t.sender.taken := by
        rcases taken_grows hstep with ⟨more, hmore⟩
        rw [← hmore, List.drop_left]
      have hlonger := ReadHalf.run_extend hreceives
        (t.sender.taken.drop s.sender.taken.length)
      rw [hreceiver]
      have hstart : (ReadHalf.start keys reader s.sender.taken).extend
          (t.sender.taken.drop s.sender.taken.length) =
            ReadHalf.start keys reader t.sender.taken := by
        unfold ReadHalf.State.extend ReadHalf.start
        simp only
        rw [htaken]
      rw [← hstart]
      exact hlonger
  | receives e =>
      rcases hstep with ⟨hstep, hsender⟩
      rw [hsender]
      exact ⟨⟨es, hsends⟩, es' ++ [e], hreceives.snoc hstep⟩

/-- In any order of the steps of the two halves, with any cancellations on both sides, the
reading half does not fail, and what it has delivered and what is left is the beginning of
what was accepted from the writers; it is all that has been sealed when nothing is on its
way. -/
theorem link_delivers (hbuffer : tlsRecordOverhead < buffer.length) (hready : reader.Ready)
    (hzero : keys.state.counter = 0) (hsmall : buffer.length < 256 ^ 2)
    (hroom : buffer.length ≤ reader.buf.length)
    (hrun : Run (step suite keys.state.key keys.state.iv) (start buffer policy keys reader)
      moves s) :
    s.receiver.errors = [] ∧
      (forall e, ReadHalf.Enabled e s.receiver ->
        exists t, ReadHalf.next suite e s.receiver = .ok t) ∧
      s.receiver.half.taken ++ s.receiver.half.window <+: s.sender.conn.accepted ∧
      (s.receiver.stream ++ s.sender.conn.unsent = [] ->
        s.receiver.half.taken ++ s.receiver.half.window =
          TlsConnection.contentsOf s.sender.conn.sealed) := by
  rcases run_split hrun with ⟨⟨es, hsends⟩, es', hreceives⟩
  have hs := TlsConnection.run_sends hbuffer hsends
  have hsized := TlsConnection.run_sized hsends
  have horderly := hs.orderly
  have hbound : forall r, r ∈ s.sender.conn.sealed ->
      r.2.length + 1 + suite.tagLen ≤ buffer.length := by
    intro r hr
    have hfits := horderly.fits r hr
    have htag := suite.tagLen_lt
    rw [hsized.buffer] at hfits
    unfold headerSize tlsRecordOverhead at hfits
    omega
  rcases texts_of_records keys.state.key keys.state.iv reader.buf.length 0
    s.sender.conn.sealed (by rw [horderly.counters, List.range_eq_range'])
    (fun r hr => Nat.lt_of_le_of_lt (hbound r hr) hsmall)
    (fun r hr => Nat.le_trans (hbound r hr) hroom) with ⟨texts, hlen, hfits, hbytes, hwire⟩
  have hcount : texts.length < UInt64.size := by
    rw [hlen, ← horderly.counter_eq]
    exact hsized.counter_lt
  -- the run of the reading half is one on the whole wire
  have hwhole := ReadHalf.run_extend hreceives s.sender.conn.unsent
  have hstart : (ReadHalf.start keys reader s.sender.taken).extend s.sender.conn.unsent =
      ReadHalf.start keys reader
        (wireOf (ServerText.sealAll keys.state.key keys.state.iv 0 texts)) := by
    unfold ReadHalf.State.extend ReadHalf.start
    simp only
    rw [hwire, ← horderly.stream]
  rw [hstart] at hwhole
  have hdelivering := ReadHalf.run_delivers hready hzero hcount hfits hwhole
  rcases hdelivering.text with ⟨done, rest, htexts, htext, hended⟩
  have hhalf : (s.receiver.extend s.sender.conn.unsent).half = s.receiver.half := rfl
  rw [hhalf] at htext
  have hsealed : TlsConnection.contentsOf s.sender.conn.sealed =
      texts.flatMap (fun t => t.content.bytes) := by
    unfold TlsConnection.contentsOf
    rw [List.flatMap_def, List.flatMap_def, hbytes]
  refine ⟨hdelivering.errors, ?_, ?_, ?_⟩
  · intro e henabled
    have hnext := ReadHalf.next_extend suite henabled s.sender.conn.unsent
    rcases ReadHalf.next_delivers hdelivering hfits hcount
      (henabled.extend s.sender.conn.unsent) with ⟨t, hrun', _⟩
    rw [hrun'] at hnext
    cases hhere : ReadHalf.next suite e s.receiver with
    | ok t' => exact ⟨t', rfl⟩
    | error f =>
        rw [hhere] at hnext
        cases hnext
  · have hfront : s.receiver.half.taken ++ s.receiver.half.window <+:
        TlsConnection.contentsOf s.sender.conn.sealed := by
      rw [htext, hsealed, htexts, List.flatMap_append]
      exact List.prefix_append _ _
    refine hfront.trans ?_
    cases hs.rests with
    | inl hidle =>
        rw [hidle.accepted]
    | inr hfull =>
        rw [hfull.1.accepted]
        exact List.prefix_append _ _
  · intro hempty
    have hnone := hended hempty
    rw [htext, hsealed, htexts, hnone, List.append_nil]

theorem run_sends {es : List TlsConnection.Event} {a b : TlsConnection.State}
    (hrun : Run (TlsConnection.step (suite.aead key iv)) a es b) (r : ReadHalf.State) :
    Run (step suite key iv) ⟨a, r⟩ (es.map .sends)
      ⟨b, r.extend (b.taken.drop a.taken.length)⟩ := by
  have hgrows {a b : TlsConnection.State} {es : List TlsConnection.Event}
      (hrun : Run (TlsConnection.step (suite.aead key iv)) a es b) : a.taken <+: b.taken := by
    induction hrun with
    | nil a => exact List.prefix_refl _
    | cons hstep _ ih => exact (taken_grows hstep).trans ih
  induction hrun generalizing r with
  | nil a =>
      have hsame : r.extend (a.taken.drop a.taken.length) = r := by
        unfold ReadHalf.State.extend
        rw [List.drop_length, List.append_nil]
      rw [hsame]
      exact Run.nil _
  | cons hstep hrest ih =>
      rename_i a b c e es
      refine Run.cons (t := ⟨b, r.extend (b.taken.drop a.taken.length)⟩) ⟨hstep, rfl⟩ ?_
      have hlater := ih (r.extend (b.taken.drop a.taken.length))
      have hboth : (r.extend (b.taken.drop a.taken.length)).extend
          (c.taken.drop b.taken.length) = r.extend (c.taken.drop a.taken.length) := by
        rcases taken_grows hstep with ⟨more, hmore⟩
        rcases hgrows hrest with ⟨more', hmore'⟩
        unfold ReadHalf.State.extend
        simp only
        rw [← hmore', List.drop_left, ← hmore, List.drop_left, List.append_assoc, List.append_assoc,
          List.drop_left]
      rw [hboth] at hlater
      exact hlater

theorem run_receives {es : List ReadHalf.Event} {r r' : ReadHalf.State}
    (hrun : Run (ReadHalf.step suite) r es r') (a : TlsConnection.State) :
    Run (step suite key iv) ⟨a, r⟩ (es.map .receives) ⟨a, r'⟩ := by
  induction hrun with
  | nil r => exact Run.nil _
  | cons hstep _ ih => exact Run.cons (t := ⟨a, _⟩) ⟨hstep, rfl⟩ ih

end Runs

set_option maxRecDepth 4000 in
/-- Two bytes are written, flushed, and read at the other end. -/
theorem link_delivers_sample :
    exists s moves, Run (step transparent sampleKeys.state.key sampleKeys.state.iv)
        (start (List.replicate 140 0) .relaxed sampleKeys
          (RecordReader.new (List.replicate 140 0))) moves s ∧
      s.receiver.got = [1, 2] ∧ s.receiver.errors = [] := by
  have hsends : exists a, Run (TlsConnection.step (transparent.aead sampleKeys.state.key
        sampleKeys.state.iv)) (TlsConnection.start (List.replicate 140 0) .relaxed)
        [.writeCalled [1, 2], .flushCalled, .took 24] a ∧
      a.taken = [23, 3, 3, 0, 19, 1, 2, 23, 7, 7, 7, 7, 7, 7, 7, 7, 7, 7, 7, 7, 0, 0, 0, 0] :=
    ⟨_, .cons ⟨rfl, rfl⟩ (.cons ⟨rfl, rfl⟩
      (.cons ⟨⟨⟨_, rfl⟩, by decide, by decide⟩, rfl⟩ (.nil _))), rfl⟩
  have hreceives : exists r, Run (ReadHalf.step transparent)
        (ReadHalf.start sampleKeys (RecordReader.new (List.replicate 140 0))
          [23, 3, 3, 0, 19, 1, 2, 23, 7, 7, 7, 7, 7, 7, 7, 7, 7, 7, 7, 7, 0, 0, 0, 0])
        [.called (.read 8), .arrived 5, .arrived 19] r ∧ r.got = [1, 2] :=
    ⟨_, .cons ⟨rfl, rfl⟩
      (.cons ⟨⟨_, _, rfl, by decide, by decide, by decide⟩, rfl⟩
        (.cons ⟨⟨_, _, rfl, by decide, by decide, by decide⟩, rfl⟩ (.nil _))), rfl⟩
  rcases hsends with ⟨a, hsends, htaken⟩
  rcases hreceives with ⟨r, hreceives, hgot⟩
  rw [← htaken] at hreceives
  have hrun := (run_sends hsends (ReadHalf.start sampleKeys
    (RecordReader.new (List.replicate 140 0)) [])).append (run_receives hreceives a)
  have hbuffer : tlsRecordOverhead < (List.replicate 140 (0 : UInt8)).length := by decide
  exact ⟨_, _, hrun, hgot, (link_delivers hbuffer (RecordReader.new_ready _) rfl (by decide)
    (by decide) hrun).1⟩

end Link
end EmbeddedTls
end TWA
