import TWA.EmbeddedTls.WriteBuffer
import TWA.Foundation.Runs

/-!
# Sending survives cancellation

The bytes that the transport has taken, followed by the ciphertext that waits
in the buffer, are always the sealed records one after the other.  A new record
is started only when no ciphertext waits, and it is sealed once, with the next
counter value.
-/

namespace TWA
namespace EmbeddedTls

open Foundation
open Foundation.Exec

def sealRecord (aead : Aead) (counter : Nat) (content : List UInt8) : List UInt8 :=
  let plain := content ++ [ContentType.applicationData.toByte]
  let aad := WriteBuffer.additionalData (content.length + 1 + aead.tagLen)
  aad ++ aead.encrypt counter aad plain

namespace WriteBuffer

def content (w : WriteBuffer) : List UInt8 :=
  (w.buffer.take w.pos).drop headerSize

structure Building (w : WriteBuffer) : Prop where
  header : w.currentHeader = some .applicationData
  pos_ge : headerSize ≤ w.pos
  pos_le : w.pos ≤ w.buffer.length
  front : w.buffer.take headerSize =
    ClientRecordHeader.applicationData.encode ++ u16Bytes 0

def HasOverhead (w : WriteBuffer) : Prop :=
  w.pos + tlsRecordOverhead ≤ w.buffer.length

section Buffer

variable (aead : Aead) (counter : Nat) {w : WriteBuffer}

theorem take_set_succ {xs : List UInt8} {i : Nat} (x : UInt8) (h : i < xs.length) :
    (xs.set i x).take (i + 1) = xs.take i ++ [x] := by
  have hlen : (xs.take i).length = i := by
    rw [List.length_take]
    omega
  rw [List.set_eq_take_append_cons_drop, if_pos h, List.take_append, hlen,
    Nat.add_sub_cancel_left, List.take_of_length_le (by omega), List.take_succ_cons,
    List.take_zero]

theorem sealContent_eq (h : Building w) (hroom : HasOverhead w) :
    exists buffer, sealContent aead counter .applicationData w.buffer w.pos =
        .ok (.ok (buffer, headerSize +
          (w.content.length + 1 + aead.tagLen))) ∧
      buffer.length = w.buffer.length ∧
      exists rest, buffer =
        (ClientRecordHeader.applicationData.encode ++ u16Bytes 0) ++
          aead.encrypt counter
            (additionalData (w.content.length + 1 + aead.tagLen))
            (w.content ++ [ContentType.applicationData.toByte]) ++ rest := by
  have hge := h.pos_ge
  have htag := aead.tagLen_lt
  have hlt : w.pos < w.buffer.length := by
    unfold HasOverhead tlsRecordOverhead at hroom
    omega
  have hcontent : w.content.length = w.pos - headerSize := by
    unfold content
    rw [List.length_drop, List.length_take]
    omega
  have hspace : headerSize + (w.content.length + 1 + aead.tagLen) ≤ w.buffer.length := by
    unfold HasOverhead tlsRecordOverhead at hroom
    omega
  have hplain : slice (w.buffer.set w.pos ContentType.applicationData.toByte) headerSize
      (headerSize + (w.pos + 1 - headerSize)) =
        .ok (w.content ++ [ContentType.applicationData.toByte]) := by
    have hend : headerSize + (w.pos + 1 - headerSize) = w.pos + 1 := by omega
    have hfront : headerSize ≤ (w.buffer.take w.pos).length := by
      rw [List.length_take]
      omega
    rw [hend, slice_of_le (by omega) (by rw [List.length_set]; omega),
      take_set_succ _ hlt, List.drop_append_of_le_length hfront]
    rfl
  have hlen : w.pos + 1 - headerSize = w.content.length + 1 := by omega
  unfold sealContent
  simp only [ClientRecordHeader.isEncrypted, Bool.not_true, Bool.false_eq_true, if_false,
    ClientRecordHeader.trailerContentType]
  rw [sub_of_le (Nat.le_of_lt hlt), ok_bind, if_neg (by omega), store_of_lt _ hlt, ok_bind,
    sub_of_le (by omega), ok_bind, hplain, ok_bind, hlen]
  generalize hsealed : aead.encrypt counter
    (additionalData (w.content.length + 1 + aead.tagLen))
    (w.content ++ [ContentType.applicationData.toByte]) = sealedText
  have hsize : sealedText.length = w.content.length + 1 + aead.tagLen := by
    rw [← hsealed, aead.length_encrypt, List.length_append]
    rfl
  have hwrite : headerSize + sealedText.length ≤
      (w.buffer.set w.pos ContentType.applicationData.toByte).length := by
    rw [List.length_set, hsize]
    exact hspace
  rw [if_neg (by rw [List.length_set]; omega), if_neg (Nat.not_lt.mpr hwrite), hsize]
  refine ⟨_, rfl, ?_, ?_⟩
  · rw [length_splice hwrite, List.length_set]
  · have hkept : (w.buffer.set w.pos ContentType.applicationData.toByte).take headerSize =
        w.buffer.take headerSize :=
      List.take_set_of_le hge
    unfold splice
    rw [hkept, h.front]
    exact ⟨_, rfl⟩

theorem closeRecordPending_eq (h : Building w) (hroom : HasOverhead w) :
    exists w', closeRecordPending aead counter w = .ok (.ok (), w') ∧
      w'.currentHeader = none ∧ w'.pos = 0 ∧ w'.pendingSent = 0 ∧
      w'.buffer.length = w.buffer.length ∧ w'.pendingLen ≤ w'.buffer.length ∧
      w'.buffer.take w'.pendingLen = sealRecord aead counter w.content := by
  rcases sealContent_eq aead counter h hroom with
    ⟨buffer, hseal, hlength, rest, hbuffer⟩
  generalize hsize : w.content.length + 1 + aead.tagLen = size at hseal hbuffer
  generalize hsealed : aead.encrypt counter (additionalData size)
    (w.content ++ [ContentType.applicationData.toByte]) = sealedText at hbuffer
  have hlen : sealedText.length = size := by
    rw [← hsealed, aead.length_encrypt, ← hsize, List.length_append]
    rfl
  have hfit : headerSize + size ≤ buffer.length := by
    rw [hbuffer, List.length_append, List.length_append, hlen]
    exact Nat.le_add_right _ _
  have hthree : 3 < buffer.length := by
    unfold headerSize at hfit
    omega
  have hfour : 4 < (buffer.set 3 (UInt8.ofNat (size / 256))).length := by
    rw [List.length_set]
    unfold headerSize at hfit
    omega
  have hstored : (buffer.set 3 (UInt8.ofNat (size / 256))).set 4 (UInt8.ofNat size) =
      additionalData size ++ sealedText ++ rest := by
    rw [hbuffer]
    rfl
  have hsame : ((buffer.set 3 (UInt8.ofNat (size / 256))).set 4
      (UInt8.ofNat size)).length = w.buffer.length := by
    rw [List.length_set, List.length_set, hlength]
  refine ⟨{ w with
      buffer := (buffer.set 3 (UInt8.ofNat (size / 256))).set 4 (UInt8.ofNat size)
      pos := 0
      currentHeader := none
      pendingLen := headerSize + size
      pendingSent := 0 }, ?_, rfl, rfl, rfl, hsame, ?_, ?_⟩
  · unfold closeRecordPending closeRecord
    rw [h.header]
    simp only [hseal, ok_bind]
    rw [sub_of_le (Nat.le_add_right _ _), ok_bind, Nat.add_sub_cancel_left,
      store_of_lt _ hthree, ok_bind, store_of_lt _ hfour, ok_bind,
      slice_of_le (Nat.zero_le _) (by rw [hsame, ← hlength]; exact hfit)]
    rfl
  · simp only
    rw [hsame, ← hlength]
    exact hfit
  · simp only
    rw [hstored, List.take_left']
    · unfold sealRecord
      rw [hsize]
      simp only [hsealed]
    · rw [List.length_append, hlen]
      rfl

theorem startRecord_eq (hpos : w.pos = 0) (hbuffer : tlsRecordOverhead < w.buffer.length) :
    exists w', startRecord .applicationData w = .ok (.ok (), w') ∧ Building w' ∧
      w'.content = [] ∧ w'.buffer.length = w.buffer.length ∧
      w'.pendingLen = w.pendingLen ∧ w'.pendingSent = w.pendingSent := by
  generalize hfront : ClientRecordHeader.applicationData.encode ++ u16Bytes 0 = front
  have hlen : front.length = headerSize := by
    rw [← hfront]
    rfl
  have hfit : 0 + front.length ≤ w.buffer.length := by
    unfold tlsRecordOverhead at hbuffer
    rw [hlen]
    unfold headerSize
    omega
  have hsize := length_splice hfit
  have htake := take_splice_filled hfit
  rw [Nat.zero_add, hlen, List.take_zero, List.nil_append] at htake
  refine ⟨{ w with
      currentHeader := some .applicationData
      buffer := splice w.buffer 0 front
      pos := headerSize }, ?_, ?_, ?_, hsize, rfl, rfl⟩
  · have hencode : ClientRecordHeader.applicationData.encode.length = 3 := rfl
    unfold tlsRecordOverhead at hbuffer
    unfold startRecord
    simp only [hpos]
    rw [sub_of_le (Nat.zero_le _), ok_bind, hencode, if_neg (by omega), if_neg (by omega),
      hfront, hlen, Nat.zero_add]
    rfl
  · refine ⟨rfl, Nat.le_refl _, ?_, ?_⟩
    · rw [hsize, ← hlen]
      simpa using hfit
    · rw [hfront]
      exact htake
  · unfold content
    simp only
    rw [htake, ← hlen, List.drop_length]

theorem append_spec {bytes : List UInt8} {n : Nat} {w' : WriteBuffer} (h : Building w)
    (happend : append bytes w = .ok (n, w')) :
    Building w' ∧ HasOverhead w' ∧ w'.content = w.content ++ bytes.take n ∧
      w'.buffer.length = w.buffer.length ∧ w'.pendingLen = w.pendingLen ∧
      w'.pendingSent = w.pendingSent := by
  unfold append space maxBlockSize at happend
  rcases bind_eq_ok.mp happend with ⟨room, hroom, hrest⟩
  rcases bind_eq_ok.mp hroom with ⟨most, hmost, hspace⟩
  rcases sub_eq_ok.mp hmost with ⟨hover, hmax⟩
  rcases sub_eq_ok.mp hspace with ⟨hpos, hleft⟩
  simp only at hrest
  generalize hn : min bytes.length room = taken at hrest
  by_cases hsome : taken > 0
  · have htaken : (bytes.take taken).length = taken := by
      rw [List.length_take]
      omega
    have hfit : w.pos + (bytes.take taken).length ≤ w.buffer.length := by
      rw [htaken]
      omega
    have hfilled := take_splice_filled hfit
    rw [htaken] at hfilled
    rw [if_pos hsome, slice_of_le (Nat.le_add_right _ _) (by omega)] at hrest
    cases hrest
    have hsize := length_splice hfit
    have hkept := take_splice h.pos_ge hfit
    refine ⟨⟨h.header, ?_, ?_, ?_⟩, ?_, ?_, hsize, rfl, rfl⟩
    · exact Nat.le_trans h.pos_ge (Nat.le_add_right _ _)
    · simp only
      rw [hsize]
      omega
    · simp only
      rw [hkept]
      exact h.front
    · unfold HasOverhead
      simp only
      rw [hsize]
      omega
    · have hge := h.pos_ge
      have hlong : headerSize ≤ (w.buffer.take w.pos).length := by
        rw [List.length_take]
        omega
      unfold content
      simp only
      rw [hfilled, List.drop_append_of_le_length hlong]
  · rw [if_neg hsome] at hrest
    cases hrest
    have hzero : n = 0 := by omega
    refine ⟨h, ?_, ?_, rfl, rfl, rfl⟩
    · unfold HasOverhead
      omega
    · rw [hzero, List.take_zero, List.append_nil]

end Buffer
end WriteBuffer

namespace TlsConnection

/-! ## What holds between two waits -/

def contentsOf (records : List (Nat × List UInt8)) : List UInt8 :=
  records.flatMap Prod.snd

def wireOf (aead : Aead) (records : List (Nat × List UInt8)) : List UInt8 :=
  records.flatMap fun r => sealRecord aead r.1 r.2

/-- What has been taken and what waits are the sealed records, numbered in order. -/
structure Orderly (aead : Aead) (taken : List UInt8) (c : TlsConnection) : Prop where
  size : tlsRecordOverhead < c.writeBuf.buffer.length
  sent_le : c.writeBuf.pendingSent ≤ c.writeBuf.pendingLen
  len_le : c.writeBuf.pendingLen ≤ c.writeBuf.buffer.length
  stream : taken ++ c.unsent = wireOf aead c.sealed
  counters : c.sealed.map Prod.fst = List.range c.sealed.length
  counter_eq : c.counter = c.sealed.length
  fits : forall r, r ∈ c.sealed ->
    headerSize + r.2.length + tlsRecordOverhead ≤ c.writeBuf.buffer.length
  unclobbered : c.clobbered = false

structure Idle (c : TlsConnection) : Prop where
  header : c.writeBuf.currentHeader = none
  pos : c.writeBuf.pos = 0
  accepted : c.accepted = contentsOf c.sealed

def AllSent (c : TlsConnection) : Prop :=
  c.writeBuf.pendingSent = c.writeBuf.pendingLen

structure Recording (c : TlsConnection) : Prop where
  building : c.writeBuf.Building
  sent : c.AllSent
  accepted : c.accepted = contentsOf c.sealed ++ c.writeBuf.content

def Rests (c : TlsConnection) : Prop :=
  c.Idle ∨ (c.Recording ∧ c.writeBuf.HasOverhead)

def Settles (aead : Aead) (taken : List UInt8) (result : Progress × TlsConnection) :
    Prop :=
  Orderly aead taken result.2 ∧
    match result.1 with
    | .awaits (.sending _) => result.2.Idle
    | .awaits (.flushing _) => result.2.Idle ∧ result.2.AllSent
    | .returned _ => result.2.Rests

section Stretches

variable {aead : Aead} {taken : List UInt8} {c : TlsConnection}
  {result : Progress × TlsConnection}

theorem AllSent.unsent_eq (h : c.AllSent) : c.unsent = [] := by
  unfold unsent
  rw [h]
  apply List.drop_eq_nil_of_le
  exact List.length_take_le _ _

theorem length_unsent (h : Orderly aead taken c) :
    c.unsent.length = c.writeBuf.pendingLen - c.writeBuf.pendingSent := by
  have hle := h.len_le
  unfold unsent
  rw [List.length_drop, List.length_take]
  omega

/-- The loop of a flush waits with its ciphertext, or goes on when all is sent: what holds
of both holds of its result. -/
theorem sendLoop_leads {P : Progress × TlsConnection -> Prop} {caller : Caller}
    {k : TlsConnection -> Exec (Progress × TlsConnection)} {wrote : Bool}
    (h : Orderly aead taken c) (hidle : c.Idle)
    (hwaits : forall c', Orderly aead taken c' -> c'.Idle ->
      P (.awaits (.sending caller), c') ∧
        (c'.AllSent -> P (.awaits (.flushing caller), c')))
    (hk : forall c', Orderly aead taken c' -> c'.Idle -> c'.AllSent ->
      forall result, k c' = .ok result -> P result)
    (hrun : sendLoop caller k wrote c = .ok result) : P result := by
  unfold sendLoop at hrun
  rcases bind_eq_ok.mp hrun with ⟨remaining, hremaining, hrest⟩
  rcases sub_eq_ok.mp hremaining with ⟨_, hlen⟩
  by_cases hmore : remaining > 0
  · rw [if_pos hmore] at hrest
    rcases bind_eq_ok.mp hrest with ⟨_, _, hend⟩
    cases hend
    exact (hwaits c h hidle).1
  · rw [if_neg hmore] at hrest
    have hsent : c.AllSent := by
      have hle := h.sent_le
      unfold AllSent
      omega
    have hcleared : Orderly aead taken { c with writeBuf := c.writeBuf.clearPending } := by
      have hstream := h.stream
      rw [hsent.unsent_eq] at hstream
      refine ⟨h.size, Nat.le_refl _, Nat.zero_le _, ?_, h.counters, h.counter_eq, h.fits,
        h.unclobbered⟩
      rw [← hstream]
      rfl
    have hidle' : Idle { c with writeBuf := c.writeBuf.clearPending } :=
      ⟨hidle.header, hidle.pos, hidle.accepted⟩
    simp only at hrest
    split at hrest
    · cases hrest
      exact (hwaits _ hcleared hidle').2 rfl
    · exact hk _ hcleared hidle' rfl result hrest

theorem sealed_orderly (h : Orderly aead taken c) (hrecording : c.Recording)
    (hroom : c.writeBuf.HasOverhead) {w : WriteBuffer} (hheader : w.currentHeader = none) (hpos : w.pos = 0)
    (hsent : w.pendingSent = 0) (hsize : w.buffer.length = c.writeBuf.buffer.length)
    (hlen : w.pendingLen ≤ w.buffer.length)
    (hsealed : w.buffer.take w.pendingLen =
      sealRecord aead c.counter c.writeBuf.content) :
    let c' : TlsConnection :=
      { c with
        writeBuf := w
        counter := c.counter + 1
        sealed := c.sealed ++ [(c.counter, c.writeBuf.content)] }
    Orderly aead taken c' ∧ c'.Idle := by
  intro c'
  have hstream := h.stream
  rw [hrecording.sent.unsent_eq, List.append_nil] at hstream
  constructor
  · refine ⟨?_, ?_, hlen, ?_, ?_, ?_, ?_, h.unclobbered⟩
    · simp only [c', hsize]
      exact h.size
    · simp only [c', hsent]
      exact Nat.zero_le _
    · simp only [c', unsent, hsent, List.drop_zero, hsealed, wireOf, List.flatMap_append]
      rw [hstream]
      simp [wireOf]
    · simp only [c', List.map_append, List.length_append, h.counters, h.counter_eq]
      exact (List.range_succ).symm
    · simp only [c', List.length_append, h.counter_eq]
      rfl
    · intro r hr
      simp only [c', hsize]
      rcases List.mem_append.mp hr with hold | hnew
      · exact h.fits r hold
      · rw [List.mem_singleton.mp hnew]
        have hge := hrecording.building.pos_ge
        unfold WriteBuffer.HasOverhead at hroom
        simp only [WriteBuffer.content, List.length_drop, List.length_take]
        omega
  · refine ⟨hheader, hpos, ?_⟩
    simp only [c', hrecording.accepted, contentsOf, List.flatMap_append]
    simp

theorem flushWith_leads {P : Progress × TlsConnection -> Prop} {caller : Caller}
    {k : TlsConnection -> Exec (Progress × TlsConnection)}
    (h : Orderly aead taken c) (hrests : c.Rests)
    (hwaits : forall c', Orderly aead taken c' -> c'.Idle ->
      P (.awaits (.sending caller), c') ∧
        (c'.AllSent -> P (.awaits (.flushing caller), c')))
    (hk : forall c', Orderly aead taken c' -> c'.Idle -> c'.AllSent ->
      forall result, k c' = .ok result -> P result)
    (hrun : flushWith aead caller k c = .ok result) : P result := by
  unfold flushWith at hrun
  cases hrests with
  | inl hidle =>
      have hempty : c.writeBuf.isEmpty = true := by
        unfold WriteBuffer.isEmpty
        rw [hidle.pos]
        rfl
      rw [if_pos hempty] at hrun
      exact sendLoop_leads h hidle hwaits hk hrun
  | inr hfull =>
      rcases hfull with ⟨hrecording, hroom⟩
      have hsome : ¬ c.writeBuf.isEmpty = true := by
        have hge := hrecording.building.pos_ge
        unfold headerSize at hge
        simp only [WriteBuffer.isEmpty, beq_iff_eq]
        omega
      rcases WriteBuffer.closeRecordPending_eq aead c.counter hrecording.building hroom with
        ⟨w, hclose, hheader, hpos, hsent, hsize, hlen, hsealed⟩
      rw [if_neg hsome] at hrun
      simp only [hclose, ok_bind] at hrun
      rcases bind_eq_ok.mp hrun with ⟨counter, hcounter, hrest⟩
      have hnext : counter = c.counter + 1 := by
        unfold incrementCounter at hcounter
        split at hcounter
        · exact (Except.ok.inj hcounter).symm
        · cases hcounter
      subst hnext
      rcases sealed_orderly h hrecording hroom hheader hpos hsent hsize hlen hsealed with
        ⟨horderly, hidle⟩
      exact sendLoop_leads horderly hidle hwaits hk hrest

theorem Settles.waits {c : TlsConnection} (h : Orderly aead taken c) (hidle : c.Idle)
    (caller : Caller) : Settles aead taken (.awaits (.sending caller), c) ∧
      (c.AllSent -> Settles aead taken (.awaits (.flushing caller), c)) :=
  ⟨⟨h, hidle⟩, fun hsent => ⟨h, hidle, hsent⟩⟩

theorem appendStage_settles {bytes : List UInt8} (h : Orderly aead taken c)
    (hrecording : c.Recording) (hrun : appendStage aead bytes c = .ok result) :
    Settles aead taken result := by
  unfold appendStage at hrun
  rcases bind_eq_ok.mp hrun with ⟨⟨buffered, w⟩, happend, hrest⟩
  rcases WriteBuffer.append_spec hrecording.building happend with
    ⟨hbuilding, hroom, hcontent, hsize, hlen, hsent⟩
  simp only at hrest
  generalize hc' : ({ c with
    writeBuf := w
    accepted := c.accepted ++ bytes.take buffered
    clobbered := c.clobbered || !c.unsent.isEmpty } : TlsConnection) = c' at hrest
  have hnone := hrecording.sent.unsent_eq
  have hsent' : c'.AllSent := by
    rw [← hc']
    unfold AllSent
    simp only [hlen, hsent]
    exact hrecording.sent
  have horderly : Orderly aead taken c' := by
    have hstream := h.stream
    rw [hnone, ← hsent'.unsent_eq] at hstream
    rw [← hc'] at hstream ⊢
    refine ⟨?_, ?_, ?_, hstream, h.counters, h.counter_eq, ?_, ?_⟩
    · simp only [hsize]
      exact h.size
    · simp only [hsent, hlen]
      exact h.sent_le
    · simp only [hlen, hsize]
      exact h.len_le
    · simp only [hsize]
      exact h.fits
    · simp only [hnone, h.unclobbered]
      rfl
  have hrecording' : c'.Recording := by
    rw [← hc'] at hsent' ⊢
    refine ⟨hbuilding, hsent', ?_⟩
    simp only [hcontent, hrecording.accepted, List.append_assoc]
  have hrests : c'.Rests := by
    right
    refine ⟨hrecording', ?_⟩
    rw [← hc']
    exact hroom
  rcases bind_eq_ok.mp hrest with ⟨full, _, hend⟩
  cases full with
  | true =>
      refine flushWith_leads horderly hrests (fun _ h' hidle => Settles.waits h' hidle _) ?_ hend
      intro c'' horderly' hidle _ result' hk
      cases hk
      exact ⟨horderly', Or.inl hidle⟩
  | false =>
      cases hend
      exact ⟨horderly, hrests⟩

theorem afterFlush_settles {caller : Caller} (h : Orderly aead taken c) (hidle : c.Idle)
    (hsent : c.AllSent) (hrun : afterFlush aead caller c = .ok result) :
    Settles aead taken result := by
  cases caller with
  | flush =>
      cases hrun
      exact ⟨h, Or.inl hidle⟩
  | afterAppend buffered =>
      cases hrun
      exact ⟨h, Or.inl hidle⟩
  | beforeRecord bytes =>
      rcases WriteBuffer.startRecord_eq hidle.pos h.size with
        ⟨w, hstart, hbuilding, hcontent, hsize, hlen, hpending⟩
      simp only [afterFlush, hstart, ok_bind] at hrun
      have hnone := hsent.unsent_eq
      refine appendStage_settles ?_ ?_ hrun
      · have hstream := h.stream
        rw [hnone] at hstream
        refine ⟨?_, ?_, ?_, ?_, h.counters, h.counter_eq, ?_, ?_⟩
        · simp only [hsize]
          exact h.size
        · simp only [hlen, hpending]
          exact h.sent_le
        · simp only [hlen, hsize]
          exact h.len_le
        · rw [← hstream]
          congr 1
          apply AllSent.unsent_eq
          unfold AllSent
          simp only [hlen, hpending]
          exact hsent
        · simp only [hsize]
          exact h.fits
        · simp only [hnone, h.unclobbered]
          rfl
      · refine ⟨hbuilding, ?_, ?_⟩
        · unfold AllSent
          simp only [hlen, hpending]
          exact hsent
        · simp only [hcontent, List.append_nil]
          exact hidle.accepted

end Stretches

/-! ## Calls, waits and whole runs -/

structure Sends (aead : Aead) (s : State) : Prop where
  orderly : Orderly aead s.taken s.conn
  rests : s.conn.Rests
  waiting : s.future ≠ none -> s.conn.Idle
  flushing : forall caller, s.future = some (.flushing caller) -> s.conn.AllSent

section Runs

variable {aead : Aead} {s t : State}

theorem Settles.sends {result : Progress × TlsConnection}
    (h : Settles aead s.taken result) : Sends aead (settle s result) := by
  rcases result with ⟨progress, c⟩
  rcases h with ⟨horderly, hwait⟩
  cases progress with
  | returned answer =>
      exact ⟨horderly, hwait, fun hsome => absurd rfl hsome, fun _ hsome => by cases hsome⟩
  | awaits a =>
      cases a with
      | sending caller =>
          exact ⟨horderly, Or.inl hwait, fun _ => hwait, fun _ hsome => by cases hsome⟩
      | flushing caller =>
          exact ⟨horderly, Or.inl hwait.1, fun _ => hwait.1, fun _ _ => hwait.2⟩

theorem write_settles {bytes : List UInt8} (h : Sends aead s)
    {result : Progress × TlsConnection} (hrun : write aead bytes s.conn = .ok result) :
    Settles aead s.taken result := by
  unfold write at hrun
  split at hrun
  · split at hrun
    · rename_i hcontains
      have hheader : s.conn.writeBuf.currentHeader = some .applicationData := by
        simpa [WriteBuffer.contains] using hcontains
      cases h.rests with
      | inl hidle =>
          rw [hidle.header] at hheader
          cases hheader
      | inr hfull => exact appendStage_settles h.orderly hfull.1 hrun
    · refine flushWith_leads h.orderly h.rests (fun _ h' hidle => Settles.waits h' hidle _) ?_ hrun
      intro c' horderly hidle hsent result' hk
      exact afterFlush_settles horderly hidle hsent hk
  · cases hrun
    exact ⟨h.orderly, h.rests⟩

theorem flush_settles (h : Sends aead s) {result : Progress × TlsConnection}
    (hrun : flush aead s.conn = .ok result) : Settles aead s.taken result := by
  refine flushWith_leads h.orderly h.rests (fun _ h' hidle => Settles.waits h' hidle _) ?_ hrun
  intro c' horderly hidle hsent result' hk
  exact afterFlush_settles horderly hidle hsent hk

theorem Orderly.took {taken : List UInt8} {c : TlsConnection} {n : Nat}
    (h : Orderly aead taken c) (hn : n ≤ c.unsent.length) :
    Orderly aead (taken ++ c.unsent.take n)
      { c with writeBuf := c.writeBuf.advancePending n } := by
  have hlen := length_unsent h
  refine ⟨h.size, ?_, h.len_le, ?_, h.counters, h.counter_eq, h.fits, h.unclobbered⟩
  · have hle := h.sent_le
    simp only [WriteBuffer.advancePending]
    omega
  · have hrest : unsent { c with writeBuf := c.writeBuf.advancePending n } =
        c.unsent.drop n := by
      simp only [unsent, WriteBuffer.advancePending, List.drop_drop]
    rw [hrest, List.append_assoc, List.take_append_drop]
    exact h.stream

theorem step_sends {e : Event} (h : Sends aead s) (hstep : step aead e s t) :
    Sends aead t := by
  rcases hstep with ⟨henabled, hnext⟩
  cases e with
  | writeCalled bytes =>
      rcases bind_eq_ok.mp hnext with ⟨result, hrun, hend⟩
      cases hend
      exact (write_settles h hrun).sends
  | flushCalled =>
      rcases bind_eq_ok.mp hnext with ⟨result, hrun, hend⟩
      cases hend
      exact (flush_settles h hrun).sends
  | took n =>
      rcases henabled with ⟨⟨caller, hfuture⟩, _, hn⟩
      simp only [next, hfuture] at hnext
      rcases bind_eq_ok.mp hnext with ⟨result, hrun, hend⟩
      cases hend
      have hidle := h.waiting (by simp [hfuture])
      have hsettles : Settles aead (s.taken ++ s.conn.unsent.take n) result := by
        refine sendLoop_leads (h.orderly.took hn)
          ⟨hidle.header, hidle.pos, hidle.accepted⟩
          (fun _ h' hidle' => Settles.waits h' hidle' _) ?_ hrun
        intro c' horderly hidle' hsent result' hk
        exact afterFlush_settles horderly hidle' hsent hk
      exact hsettles.sends
  | transportFlushed =>
      rcases henabled with ⟨caller, hfuture⟩
      simp only [next, hfuture] at hnext
      rcases bind_eq_ok.mp hnext with ⟨result, hrun, hend⟩
      cases hend
      have hidle := h.waiting (by simp [hfuture])
      exact (afterFlush_settles h.orderly hidle (h.flushing caller hfuture) hrun).sends
  | dropped =>
      cases hnext
      exact ⟨h.orderly, h.rests, fun hsome => absurd rfl hsome, fun _ hsome => by cases hsome⟩
  | transportFailed =>
      cases hnext
      exact ⟨h.orderly, h.rests, fun hsome => absurd rfl hsome, fun _ hsome => by cases hsome⟩

theorem start_sends {buffer : List UInt8} (hbuffer : tlsRecordOverhead < buffer.length)
    (policy : FlushPolicy) : Sends aead (start buffer policy) := by
  have hidle : (start buffer policy).conn.Idle := ⟨rfl, rfl, rfl⟩
  refine ⟨?_, Or.inl hidle, fun _ => hidle, fun _ hsome => by cases hsome⟩
  refine ⟨hbuffer, Nat.le_refl _, Nat.zero_le _, ?_, rfl, rfl, ?_, rfl⟩
  · simp [start, unsent, WriteBuffer.new, wireOf]
  · intro r hr
    cases hr

/-! ## What a flush has done when it returns -/

/-- At this event a call of `flush` returns without an error. -/
inductive FlushReturns (aead : Aead) (s : State) : Event -> Prop where
  | atOnce (n : Nat) (c : TlsConnection)
      (hrun : flush aead s.conn = .ok (.returned (.ok n), c)) : FlushReturns aead s .flushCalled
  | sent (taken n : Nat) (c : TlsConnection) (hfuture : s.future = some (.sending .flush))
      (hrun : resume aead taken (.sending .flush) s.conn = .ok (.returned (.ok n), c)) :
      FlushReturns aead s (.took taken)
  | flushed (n : Nat) (c : TlsConnection) (hfuture : s.future = some (.flushing .flush))
      (hrun : resume aead 0 (.flushing .flush) s.conn = .ok (.returned (.ok n), c)) :
      FlushReturns aead s .transportFlushed

/-- If the call has returned, all that was accepted has been sealed and sent. -/
def Flushed (aead : Aead) (taken : List UInt8) (result : Progress × TlsConnection) : Prop :=
  forall n, result.1 = .returned (.ok n) ->
    Orderly aead taken result.2 ∧ result.2.Idle ∧ result.2.AllSent

theorem Flushed.of_awaits (a : Await) (c : TlsConnection) (taken : List UInt8) :
    Flushed aead taken (.awaits a, c) := by
  intro n hreturned
  cases hreturned

theorem Flushed.of_end {taken : List UInt8} {c : TlsConnection} (h : Orderly aead taken c)
    (hidle : c.Idle) (hsent : c.AllSent) {result : Progress × TlsConnection}
    (hrun : afterFlush aead .flush c = .ok result) : Flushed aead taken result := by
  intro n _
  cases hrun
  exact ⟨h, hidle, hsent⟩

theorem Flushed.sent {taken : List UInt8} {n : Nat} {c : TlsConnection}
    (h : Flushed aead taken (.returned (.ok n), c)) :
    c.unsent = [] ∧ c.writeBuf.content = [] ∧ taken = wireOf aead c.sealed ∧
      c.accepted = contentsOf c.sealed := by
  rcases h n rfl with ⟨horderly, hidle, hsent⟩
  have hnone : c.unsent = [] := hsent.unsent_eq
  refine ⟨hnone, ?_, ?_, hidle.accepted⟩
  · have hpos : c.writeBuf.pos = 0 := hidle.pos
    rw [WriteBuffer.content, hpos, List.take_zero, List.drop_nil]
  · have hstream := horderly.stream
    simp only [hnone, List.append_nil] at hstream
    exact hstream

theorem flushReturns_sent {e : Event} (h : Sends aead s) (hreturns : FlushReturns aead s e)
    (hstep : step aead e s t) :
    t.conn.unsent = [] ∧ t.conn.writeBuf.content = [] ∧
      t.taken = wireOf aead t.conn.sealed ∧ t.conn.accepted = contentsOf t.conn.sealed := by
  rcases hstep with ⟨henabled, hnext⟩
  cases hreturns with
  | atOnce n c hrun =>
      simp only [next, hrun, ok_bind, pure_eq_ok, Except.ok.injEq] at hnext
      subst hnext
      refine Flushed.sent (n := n) ?_
      exact flushWith_leads h.orderly h.rests
        (fun c' _ _ => ⟨.of_awaits _ c' _, fun _ => .of_awaits _ c' _⟩)
        (fun _ h' hidle hsent _ hk => .of_end h' hidle hsent hk) hrun
  | sent taken n c hfuture hrun =>
      simp only [next, hfuture, hrun, ok_bind, pure_eq_ok, Except.ok.injEq] at hnext
      subst hnext
      have hidle := h.waiting (by simp [hfuture])
      refine Flushed.sent (n := n) ?_
      exact sendLoop_leads (h.orderly.took henabled.2.2)
        ⟨hidle.header, hidle.pos, hidle.accepted⟩
        (fun c' _ _ => ⟨.of_awaits _ c' _, fun _ => .of_awaits _ c' _⟩)
        (fun _ h' hidle' hsent _ hk => .of_end h' hidle' hsent hk) hrun
  | flushed n c hfuture hrun =>
      simp only [next, hfuture, hrun, ok_bind, pure_eq_ok, Except.ok.injEq] at hnext
      subst hnext
      have hidle := h.waiting (by simp [hfuture])
      refine Flushed.sent (n := n) ?_
      exact .of_end h.orderly hidle (h.flushing _ hfuture) hrun

/-- However writes and flushes follow one another and wherever they are dropped, the
transport has taken a prefix of the sealed records; they are sealed once each, with the
counter values from zero on, from just the bytes that were accepted but for those in the
record still open, and the ciphertext that waits is what the transport has not taken yet.
When a flush returns nothing is open and nothing waits. -/
theorem sending_survives_cancellation {buffer : List UInt8}
    (hbuffer : tlsRecordOverhead < buffer.length) {policy : FlushPolicy}
    {events : List Event} (hrun : Run (step aead) (start buffer policy) events s) :
    (exists contents : List (List UInt8),
      s.conn.sealed = (List.range contents.length).zip contents ∧
        s.conn.counter = contents.length ∧
        contents.flatten ++ s.conn.writeBuf.content = s.conn.accepted ∧
        s.taken ++ s.conn.unsent = wireOf aead s.conn.sealed ∧
        s.taken <+: wireOf aead s.conn.sealed ∧
        s.conn.clobbered = false) ∧
      forall e t, FlushReturns aead s e -> step aead e s t ->
        t.conn.unsent = [] ∧ t.conn.writeBuf.content = [] ∧
          t.taken = wireOf aead t.conn.sealed ∧ t.conn.accepted = contentsOf t.conn.sealed := by
  have hs : Sends aead s :=
    hrun.invariant (P := Sends aead) (fun _ _ _ h hstep => step_sends h hstep)
      (start_sends hbuffer policy)
  have horderly := hs.orderly
  have hcontents : contentsOf s.conn.sealed = (s.conn.sealed.map Prod.snd).flatten := by
    unfold contentsOf
    rw [List.flatMap_def]
  have haccepted : (s.conn.sealed.map Prod.snd).flatten ++ s.conn.writeBuf.content =
      s.conn.accepted := by
    cases hs.rests with
    | inl hidle =>
        rw [WriteBuffer.content, hidle.pos, hidle.accepted, hcontents, List.take_zero,
          List.drop_nil, List.append_nil]
    | inr hfull => rw [hfull.1.accepted, hcontents]
  refine ⟨⟨s.conn.sealed.map Prod.snd, ?_, ?_, haccepted, horderly.stream, ?_,
    horderly.unclobbered⟩, fun _ _ hreturns hstep => flushReturns_sent hs hreturns hstep⟩
  · rw [List.length_map, ← horderly.counters]
    exact List.zip_of_prod rfl rfl
  · rw [List.length_map]
    exact horderly.counter_eq
  · rw [← horderly.stream]
    exact List.prefix_append _ _

def plainAead : Aead where
  tagLen := 0
  encrypt := fun _ _ plain => plain
  tagLen_lt := by decide
  length_encrypt := fun _ _ _ => rfl

set_option maxRecDepth 4000 in
/-- A byte is written, its record is flushed, and the flush is dropped after three bytes
and called again. -/
theorem sending_survives_one_drop :
    exists s : State, s.taken = [23, 3, 3, 0, 2, 1, 23] ∧
      s.taken <+: wireOf plainAead s.conn.sealed := by
  have hbuffer : tlsRecordOverhead < (List.replicate 140 (0 : UInt8)).length := by decide
  have hrun : exists s, Run (step plainAead) (start (List.replicate 140 0) .relaxed)
      [.writeCalled [1], .flushCalled, .took 3, .dropped, .flushCalled, .took 4] s ∧
        s.taken = [23, 3, 3, 0, 2, 1, 23] := by
    refine ⟨_, .cons ⟨rfl, rfl⟩ (.cons ⟨rfl, rfl⟩ (.cons ⟨⟨⟨_, rfl⟩, ?_⟩, rfl⟩
      (.cons ⟨?_, rfl⟩ (.cons ⟨rfl, rfl⟩ (.cons ⟨⟨⟨_, rfl⟩, ?_⟩, rfl⟩ (.nil _)))))), rfl⟩
    · decide
    · exact Option.some_ne_none _
    · decide
  rcases hrun with ⟨s, hrun, htaken⟩
  rcases sending_survives_cancellation hbuffer hrun with ⟨⟨_, _, _, _, _, hsent, _⟩, _⟩
  exact ⟨s, htaken, hsent⟩

end Runs

end TlsConnection
end EmbeddedTls
end TWA
