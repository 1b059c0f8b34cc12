import TWA.EmbeddedTls.Handling
import TWA.Foundation.Runs

/-!
# Nothing but what the peer has sealed

Whoever writes the stream, a record is opened only under the next counter value.
So the plaintexts that are accepted were opened one after the other under the
counter values from zero on, and what callers get is the data in them, in order
and each byte once.
-/

namespace TWA
namespace EmbeddedTls

open Foundation
open Foundation.Exec

/-! ## Using the decrypted data -/

namespace ReadBuffer

variable {b : ReadBuffer}

theorem pop_eq (h : b.consumed ≤ b.data.length) (count : Nat) :
    b.pop count = .ok ((b.data.drop b.consumed).take count,
      { b with
        consumed := b.consumed + min (b.data.length - b.consumed) count
        used := true }) := by
  have htake : (b.data.take (b.consumed + min (b.data.length - b.consumed) count)).drop
      b.consumed = (b.data.drop b.consumed).take count := by
    rw [List.drop_take, Nat.add_sub_cancel_left, ← List.length_drop, Nat.min_comm,
      ← List.take_eq_take_min]
  unfold pop len
  rw [sub_of_le h, ok_bind]
  simp only
  rw [slice_of_le (Nat.le_add_right _ _) (by omega), ok_bind, htake]
  rfl

theorem peek_eq (h : b.consumed ≤ b.data.length) (count : Nat) :
    exists bytes, b.peek count = .ok (bytes, { b with used := true }) := by
  unfold peek len
  rw [sub_of_le h, ok_bind, slice_of_le (Nat.le_add_right _ _) (by omega)]
  exact ⟨_, rfl⟩

end ReadBuffer

theorem Use.apply_eq (use : Use) {b : ReadBuffer} (h : b.consumed ≤ b.data.length) :
    exists bytes b', use.apply b = .ok (bytes, b') ∧ b'.data = b.data ∧
      b'.consumed ≤ b'.data.length := by
  cases use with
  | peek count =>
      rcases ReadBuffer.peek_eq h count with ⟨bytes, hpeek⟩
      exact ⟨bytes, _, hpeek, rfl, h⟩
  | peekAll =>
      rcases ReadBuffer.peek_eq h (b.data.length - b.consumed) with ⟨bytes, hpeek⟩
      have hall : Use.apply .peekAll b = b.peek (b.data.length - b.consumed) := by
        unfold Use.apply ReadBuffer.peekAll ReadBuffer.len
        simp only
        rw [sub_of_le h, ok_bind]
      exact ⟨bytes, _, hall.trans hpeek, rfl, h⟩
  | pop count =>
      refine ⟨_, _, ReadBuffer.pop_eq h count, rfl, ?_⟩
      simp only
      omega
  | popAll =>
      have hall : Use.apply .popAll b = b.pop (b.data.length - b.consumed) := by
        unfold Use.apply ReadBuffer.popAll ReadBuffer.len
        simp only
        rw [sub_of_le h, ok_bind]
      refine ⟨_, _, hall.trans (ReadBuffer.pop_eq h _), rfl, ?_⟩
      simp only
      omega

namespace ReadHalf

theorem useAll_eq (uses : List Use) {b : ReadBuffer} (h : b.consumed ≤ b.data.length) :
    exists bytes b', useAll uses b = .ok (bytes, b') ∧ b'.data = b.data ∧
      b'.consumed ≤ b'.data.length := by
  induction uses generalizing b with
  | nil => exact ⟨[], b, rfl, rfl, h⟩
  | cons use uses ih =>
      rcases use.apply_eq h with ⟨bytes, b1, hfirst, hdata, hle⟩
      rcases ih hle with ⟨more, b2, hrest, hdata', hle'⟩
      refine ⟨bytes ++ more, b2, ?_, hdata'.trans hdata, hle'⟩
      unfold useAll
      rw [hfirst, ok_bind]
      simp only
      rw [hrest]
      rfl

structure InRange (c : ReadHalf) : Prop where
  consumed_le : c.decrypted.consumed ≤ c.decrypted.len
  len_le : c.decrypted.offset + c.decrypted.len ≤ c.recordReader.buf.length

def drained (c : ReadHalf) (k : Nat) : ReadHalf :=
  { c with
    decrypted := { c.decrypted with consumed := c.decrypted.consumed + k }
    taken := c.taken ++ c.window.take k }

section Windows

variable {c : ReadHalf} {k : Nat}

theorem length_window (h : c.InRange) :
    c.window.length = c.decrypted.len - c.decrypted.consumed := by
  have hle := h.len_le
  unfold window
  rw [List.length_drop, List.length_take]
  omega

theorem window_eq_nil (h : c.decrypted.consumed = c.decrypted.len) : c.window = [] := by
  unfold window
  rw [h]
  apply List.drop_eq_nil_of_le
  exact List.length_take_le _ _

theorem drained_zero (c : ReadHalf) : c.drained 0 = c := by
  unfold drained
  rw [Nat.add_zero, List.take_zero, List.append_nil]

theorem window_drained (c : ReadHalf) (k : Nat) :
    (c.drained k).window = c.window.drop k := by
  unfold drained window
  simp only
  rw [List.drop_drop, Nat.add_assoc]

theorem InRange.drained (h : c.InRange) (hk : k ≤ c.window.length) :
    (c.drained k).InRange := by
  rw [length_window h] at hk
  have hle := h.consumed_le
  constructor
  · unfold ReadHalf.drained
    simp only
    omega
  · exact h.len_le

theorem taken_drained (c : ReadHalf) (k : Nat) :
    (c.drained k).taken ++ (c.drained k).window = c.taken ++ c.window := by
  rw [window_drained]
  unfold drained
  simp only
  rw [List.append_assoc, List.take_append_drop]

theorem createReadBuffer_eq (h : c.InRange) :
    c.createReadBuffer = .ok (ReadBuffer.new c.window) := by
  have hle := h.consumed_le
  unfold createReadBuffer
  rw [slice_of_le (by omega) h.len_le]
  rfl

theorem release_eq (b : ReadBuffer) (hdata : b.data = c.window) :
    c.release b = c.drained b.dropped := by
  unfold release drained
  rw [hdata]

theorem dropped_le {b : ReadBuffer} (h : b.consumed ≤ b.data.length) :
    b.dropped ≤ b.data.length := by
  unfold ReadBuffer.dropped
  split
  · exact h
  · exact Nat.le_refl _

theorem finish_eq (h : c.InRange) (caller : Caller) :
    exists bytes k, finish caller c = .ok (bytes, c.drained k) ∧ k ≤ c.window.length ∧
      forall room, caller = .read room -> bytes = c.window.take k := by
  have hstart : (ReadBuffer.new c.window).consumed ≤ (ReadBuffer.new c.window).data.length :=
    Nat.zero_le _
  unfold finish
  rw [createReadBuffer_eq h, ok_bind]
  cases caller with
  | read room =>
      refine ⟨c.window.take room, min c.window.length room, ?_, Nat.min_le_left _ _, ?_⟩
      · simp only
        rw [ReadBuffer.pop_eq hstart, ok_bind]
        simp only
        rw [release_eq _ rfl]
        simp [ReadBuffer.new, ReadBuffer.dropped]
      · intro _ _
        rw [Nat.min_comm, ← List.take_eq_take_min]
  | fillBuf =>
      rcases Use.apply_eq .peekAll hstart with ⟨bytes, b, hpeek, hdata, hle⟩
      refine ⟨bytes, b.dropped, ?_, ?_, ?_⟩
      · have hrun : (ReadBuffer.new c.window).peekAll = .ok (bytes, b) := hpeek
        simp only
        rw [hrun, ok_bind]
        simp only
        rw [release_eq _ hdata]
        rfl
      · have hdropped := dropped_le hle
        rw [hdata] at hdropped
        exact hdropped
      · intro room hread
        cases hread
  | readBuffered uses revert =>
      rcases useAll_eq uses hstart with ⟨bytes, b, hrun, hdata, hle⟩
      have hdropped := dropped_le hle
      rw [hdata] at hdropped
      cases revert with
      | true =>
          refine ⟨bytes, 0, ?_, Nat.zero_le _, ?_⟩
          · simp only
            rw [hrun, ok_bind, drained_zero]
            rfl
          · intro room hread
            cases hread
      | false =>
          refine ⟨bytes, b.dropped, ?_, hdropped, ?_⟩
          · simp only
            rw [hrun, ok_bind]
            simp only
            rw [release_eq _ hdata]
            rfl
          · intro room hread
            cases hread

theorem consume_eq (h : c.InRange) (amt : Nat) :
    exists k, consume amt c = .ok (c.drained k) ∧ k ≤ c.window.length := by
  have hstart : (ReadBuffer.new c.window).consumed ≤ (ReadBuffer.new c.window).data.length :=
    Nat.zero_le _
  refine ⟨min c.window.length amt, ?_, Nat.min_le_left _ _⟩
  unfold consume
  rw [createReadBuffer_eq h, ok_bind, ReadBuffer.pop_eq hstart, ok_bind]
  simp only
  rw [release_eq _ rfl]
  simp [ReadBuffer.new, ReadBuffer.dropped]

end Windows

/-! ## Between two waits -/

/-- What holds of the half between two waits, whatever the stream is. -/
structure Intact (suite : TlsCipherSuite) (key iv : List UInt8) (c : ReadHalf) : Prop where
  reader : c.recordReader.Sound
  range : c.InRange
  key_eq : c.keys.state.key = key
  iv_eq : c.keys.state.iv = iv
  counter_eq : c.keys.state.counter = c.accepted.length
  counter_lt : c.keys.state.counter < UInt64.size
  opens : forall i plain, c.accepted[i]? = some plain ->
    exists header body, (header, body) ∈ c.handed ∧
      suite.decrypt key (getNonce i iv) header.header body = some plain
  text : c.taken ++ c.window = c.accepted.flatMap applicationBytes

def Spent (c : ReadHalf) : Prop :=
  c.decrypted.consumed = c.decrypted.len

section Stretches

variable {suite : TlsCipherSuite} {key iv : List UInt8} {c : ReadHalf}

theorem Intact.drained (h : Intact suite key iv c) {k : Nat} (hk : k ≤ c.window.length) :
    Intact suite key iv (c.drained k) := by
  refine ⟨h.reader, h.range.drained hk, h.key_eq, h.iv_eq, h.counter_eq, h.counter_lt,
    h.opens, ?_⟩
  rw [taken_drained]
  exact h.text

theorem Intact.reading (h : Intact suite key iv c) (hspent : c.Spent) {r : RecordReader}
    (hsound : r.Sound) (hsize : r.buf.length = c.recordReader.buf.length) :
    Intact suite key iv { c with recordReader := r } := by
  refine ⟨hsound, ⟨h.range.consumed_le, ?_⟩, h.key_eq, h.iv_eq, h.counter_eq, h.counter_lt,
    h.opens, ?_⟩
  · simp only [hsize]
    exact h.range.len_le
  · have hbefore := window_eq_nil hspent
    have hafter := window_eq_nil (c := { c with recordReader := r }) hspent
    rw [hafter, ← hbefore]
    exact h.text

theorem Intact.taken_eq (h : Intact suite key iv c) (hspent : c.Spent) :
    c.taken = c.accepted.flatMap applicationBytes := by
  have htext := h.text
  rw [window_eq_nil hspent, List.append_nil] at htext
  exact htext

theorem Intact.opens_next (h : Intact suite key iv c) {header : RecordHeader}
    {body plain : List UInt8}
    (hopens : suite.decrypt c.keys.state.key c.keys.state.nonce header.header body =
      some plain) :
    forall i p, (c.accepted ++ [plain])[i]? = some p ->
      exists header' body', (header', body') ∈ c.handed ++ [(header, body)] ∧
        suite.decrypt key (getNonce i iv) header'.header body' = some p := by
  intro i p hget
  by_cases hold : i < c.accepted.length
  · rw [List.getElem?_append_left hold] at hget
    rcases h.opens i p hget with ⟨header', body', hmem, hopens'⟩
    exact ⟨header', body', List.mem_append_left _ hmem, hopens'⟩
  · rw [List.getElem?_append_right (Nat.le_of_not_lt hold)] at hget
    rcases List.getElem?_eq_some_iff.mp hget with ⟨hlt, hp⟩
    rw [List.length_singleton] at hlt
    have hi : i = c.accepted.length := by omega
    have hsame : plain = p := by
      simpa [hi] using hp
    refine ⟨header, body, List.mem_append_right _ List.mem_cons_self, ?_⟩
    unfold KeyScheduleState.nonce at hopens
    rw [h.key_eq, h.iv_eq, h.counter_eq] at hopens
    rw [hi, hopens, hsame]

theorem Intact.opens_more (h : Intact suite key iv c) (header : RecordHeader)
    (body : List UInt8) :
    forall i p, c.accepted[i]? = some p ->
      exists header' body', (header', body') ∈ c.handed ++ [(header, body)] ∧
        suite.decrypt key (getNonce i iv) header'.header body' = some p := by
  intro i p hget
  rcases h.opens i p hget with ⟨header', body', hmem, hopens⟩
  exact ⟨header', body', List.mem_append_left _ hmem, hopens⟩

theorem overwritten_reader {header : RecordHeader} {body plain : List UInt8}
    (hready : c.recordReader.Ready) (hlen : header.contentLength = body.length)
    (hle : header.contentLength ≤ c.recordReader.decoded) (hfit : plain.length ≤ body.length) :
    (c.overwritten header body plain).recordReader.Ready ∧
      (c.overwritten header body plain).recordReader.buf.length =
        c.recordReader.buf.length := by
  have hroom : c.bodyStart header + plain.length ≤ c.recordReader.decoded := by
    unfold bodyStart
    omega
  exact hready.spliced hroom

theorem Intact.processed (h : Intact suite key iv c) (hspent : c.Spent)
    {header : RecordHeader} {body : List UInt8} (hready : c.recordReader.Ready)
    (hlen : header.contentLength = body.length)
    (hle : header.contentLength ≤ c.recordReader.decoded)
    {result : Except ProtocolError Unit × ReadHalf}
    (hprocessed : Processed suite c header body result) :
    Intact suite key iv result.2 ∧ result.2.recordReader.Ready ∧
      result.2.recordReader.buf.length = c.recordReader.buf.length := by
  have hdecoded := hready.decoded_le
  have htaken := h.taken_eq hspent
  cases hprocessed with
  | data plain content hopens hplain hcount =>
      have hshort := suite.length_decrypt _ _ _ _ _ hopens
      have hfit : plain.length ≤ body.length := by omega
      rcases overwritten_reader hready hlen hle hfit with ⟨hstill, hsize⟩
      have hstarts : content <+: plain := by
        have hcontent : content <+: stripPadding plain := by
          rw [hplain]
          exact List.prefix_append _ _
        exact hcontent.trans (stripPadding_front plain)
      have hin := hstarts.length_le
      have hfront : c.bodyStart header + plain.length ≤ c.recordReader.buf.length := by
        unfold bodyStart
        omega
      refine ⟨⟨hstill.sound, ⟨Nat.zero_le _, ?_⟩, h.key_eq, h.iv_eq, ?_, hcount,
        h.opens_next hopens, ?_⟩, hstill, hsize⟩
      · simp only [hsize]
        omega
      · unfold ReadKeySchedule.counted
        simp only
        rw [h.counter_eq, List.length_append, List.length_singleton]
      · have hwindow : ((splice c.recordReader.buf (c.bodyStart header) plain).take
            (c.bodyStart header + content.length)).drop (c.bodyStart header + 0) = content := by
          rw [Nat.add_zero, read_splice hin (by omega)]
          exact (List.prefix_iff_eq_take.mp hstarts).symm
        rw [List.flatMap_append, List.flatMap_singleton, applicationBytes_of_data hplain,
          ← htaken]
        congr 1
  | tickets plain transcript hopens hnone hcount =>
      have hshort := suite.length_decrypt _ _ _ _ _ hopens
      have hfit : plain.length ≤ body.length := by omega
      rcases overwritten_reader hready hlen hle hfit with ⟨hstill, hsize⟩
      have hreading := h.reading hspent hstill.sound hsize
      refine ⟨⟨hstill.sound, ⟨h.range.consumed_le, hreading.range.len_le⟩, h.key_eq, h.iv_eq,
        ?_, hcount, h.opens_next hopens, ?_⟩, hstill, hsize⟩
      · unfold ReadKeySchedule.counted
        simp only
        rw [h.counter_eq, List.length_append, List.length_singleton]
      · rw [List.flatMap_append, List.flatMap_singleton, hnone, List.append_nil]
        exact hreading.text
  | clear transcript htype =>
      have hnone : ([] : List UInt8).length ≤ body.length := Nat.zero_le _
      rcases overwritten_reader hready hlen hle hnone with ⟨hstill, hsize⟩
      have hreading := h.reading hspent hstill.sound hsize
      exact ⟨⟨hstill.sound, ⟨h.range.consumed_le, hreading.range.len_le⟩, h.key_eq, h.iv_eq,
        h.counter_eq, h.counter_lt, h.opens_more header body, hreading.text⟩, hstill, hsize⟩
  | refused e transcript isOpen plain hfit hnot =>
      rcases overwritten_reader hready hlen hle hfit with ⟨hstill, hsize⟩
      have hreading := h.reading hspent hstill.sound hsize
      exact ⟨⟨hstill.sound, ⟨h.range.consumed_le, hreading.range.len_le⟩, h.key_eq, h.iv_eq,
        h.counter_eq, h.counter_lt, h.opens_more header body, hreading.text⟩, hstill, hsize⟩

def Gives (caller : Caller) (before : List UInt8) : Progress × ReadHalf -> Prop
  | (.returned (.ok bytes), c) => forall room, caller = .read room -> c.taken = before ++ bytes
  | (.returned (.error _), c) => c.taken = before
  | (.awaits _, c) => c.taken = before

structure Settled (suite : TlsCipherSuite) (key iv : List UInt8) (caller : Caller)
    (before : List UInt8) (result : Progress × ReadHalf) : Prop where
  intact : Intact suite key iv result.2
  waits : forall a, result.1 = .awaits a ->
    RecordReader.AwaitSound result.2.recordReader a ∧ result.2.Spent
  gives : Gives caller before result

theorem Settled.awaits (h : Intact suite key iv c) (hspent : c.Spent) {a : RecordReader.Await}
    (ha : RecordReader.AwaitSound c.recordReader a) (caller : Caller) :
    Settled suite key iv caller c.taken (.awaits a, c) := by
  refine ⟨h, ?_, rfl⟩
  intro a' heq
  cases heq
  exact ⟨ha, hspent⟩

theorem Settled.failed (h : Intact suite key iv c) (e : ProtocolError) (caller : Caller) :
    Settled suite key iv caller c.taken (.returned (.error e), c) :=
  ⟨h, fun _ heq => (by cases heq), rfl⟩

theorem readLoop_settled (h : Intact suite key iv c) (caller : Caller) (fuel : Nat) :
    exists result, readLoop suite caller (fuel + 1) c = .ok result ∧
      Settled suite key iv caller c.taken result := by
  unfold readLoop DecryptedBufferInfo.isEmpty DecryptedBufferInfo.left
  rw [sub_of_le h.range.consumed_le, ok_bind]
  simp only [pure_eq_ok, ok_bind]
  by_cases hempty : c.decrypted.len - c.decrypted.consumed = 0
  · have hle := h.range.consumed_le
    have hspent : c.Spent := by
      unfold Spent
      omega
    rw [if_pos (by rw [hempty]; rfl)]
    rcases RecordReader.read_landed h.reader with ⟨progress, hread, hlanded, hunfinished⟩
    rw [hread, ok_bind]
    cases hlanded with
    | awaits a r hsize hsound hawait =>
        exact ⟨_, rfl, Settled.awaits (h.reading hspent hsound hsize) hspent hawait caller⟩
    | ready header body r hsize hready htype hlen hle hbody =>
        exact absurd rfl (hunfinished header body)
    | failed e r hsize hsound =>
        exact ⟨_, rfl, Settled.failed (h.reading hspent hsound hsize) _ caller⟩
  · rw [if_neg (by simpa using hempty)]
    rcases finish_eq h.range caller with ⟨bytes, k, hfinish, hk, hgives⟩
    rw [hfinish, ok_bind]
    refine ⟨_, rfl, h.drained hk, fun _ heq => (by cases heq), ?_⟩
    intro room hcaller
    show c.taken ++ c.window.take k = c.taken ++ bytes
    rw [hgives room hcaller]

theorem call_settled (h : Intact suite key iv c) (caller : Caller) :
    exists result, call suite caller c = .ok result ∧
      Settled suite key iv caller c.taken result := by
  unfold call
  by_cases hzero : caller = .read 0
  · rw [if_pos hzero]
    refine ⟨_, rfl, h, fun _ heq => (by cases heq), ?_⟩
    intro room _
    exact (List.append_nil _).symm
  · rw [if_neg hzero]
    by_cases hopen : c.opened
    · rw [if_pos hopen]
      exact readLoop_settled h caller 1
    · rw [if_neg hopen]
      exact ⟨_, rfl, Settled.failed h _ caller⟩

def Kills (suite : TlsCipherSuite) (bytes : List UInt8) (a : RecordReader.Await)
    (c : ReadHalf) : Prop :=
  exists header body r, RecordReader.resume bytes a c.recordReader =
    .ok (.ready header body, r) ∧ Fatal suite c.keys header body

theorem resume_settled (h : Intact suite key iv c) (hspent : c.Spent)
    {a : RecordReader.Await} (ha : RecordReader.AwaitSound c.recordReader a)
    {bytes : List UInt8} (hbytes : bytes.length ≤ a.requested c.recordReader)
    (caller : Caller) :
    (exists result, resume suite bytes a caller c = .ok result ∧
      Settled suite key iv caller c.taken result ∧ ¬ Kills suite bytes a c) ∨
      (resume suite bytes a caller c = .error .unwrapNone ∧
        (Kills suite bytes a c ∨ UInt64.size ≤ c.keys.state.counter + 1)) := by
  unfold resume Kills
  rcases RecordReader.resume_landed h.reader ha hbytes with ⟨progress, hresume, hlanded⟩
  rw [hresume, ok_bind]
  cases hlanded with
  | awaits a' r hsize hsound hawait =>
      left
      refine ⟨_, rfl, Settled.awaits (h.reading hspent hsound hsize) hspent hawait caller, ?_⟩
      rintro ⟨header, body, r', heq, _⟩
      cases heq
  | failed e r hsize hsound =>
      left
      refine ⟨_, rfl, Settled.failed (h.reading hspent hsound hsize) _ caller, ?_⟩
      rintro ⟨header, body, r', heq, _⟩
      cases heq
  | ready header body r hsize hready htype hlen hle hbody =>
      have hintact := h.reading hspent hready.sound hsize
      simp only [recordRead]
      rcases processRecord_cases suite (c := { c with recordReader := r }) hlen htype hle with ⟨result, hprocess, hprocessed, hfine⟩ | ⟨hprocess, hfatal⟩
      · left
        have hkept := hintact.processed hspent hready hlen hle hprocessed
        have htaken : result.2.taken = c.taken := by
          cases hprocessed <;> rfl
        rw [hprocess, ok_bind]
        have hnot : ¬ exists header' body' r',
            (Except.ok (RecordReader.Progress.ready header body, r) :
              Exec (RecordReader.Progress × RecordReader)) =
                .ok (.ready header' body', r') ∧ Fatal suite c.keys header' body' := by
          rintro ⟨header', body', r', heq, hfatal⟩
          cases heq
          exact hfine hfatal
        rcases result with ⟨answer, c'⟩
        cases answer with
        | error e =>
            have hsettled := Settled.failed hkept.1 e caller
            rw [htaken] at hsettled
            exact ⟨_, rfl, hsettled, hnot⟩
        | ok _ =>
            rcases readLoop_settled hkept.1 caller 1 with ⟨result, hloop, hsettled⟩
            rw [htaken] at hsettled
            exact ⟨result, hloop, hsettled, hnot⟩
      · right
        rw [hprocess]
        refine ⟨rfl, ?_⟩
        cases hfatal with
        | inl hfatal => exact Or.inl ⟨header, body, r, rfl, hfatal⟩
        | inr hcount => exact Or.inr hcount

end Stretches

/-! ## Runs -/

structure Secure (suite : TlsCipherSuite) (key iv : List UInt8) (s : State) : Prop where
  intact : Intact suite key iv s.half
  waits : forall caller a, s.future = some (caller, a) ->
    RecordReader.AwaitSound s.half.recordReader a ∧ s.half.Spent

/-- The bytes that arrive complete a record that ends the program. -/
def Ends (suite : TlsCipherSuite) (e : Event) (s : State) : Prop :=
  exists n caller a, e = .arrived n ∧ s.future = some (caller, a) ∧
    Kills suite (s.stream.take n) a s.half

def OnlyReads : Event -> Prop
  | .called (.read _) => True
  | .called _ => False
  | .consumed _ => False
  | _ => True

structure ReadsAll (s : State) : Prop where
  got_eq : s.got = s.half.taken
  reads : forall caller a, s.future = some (caller, a) -> exists room, caller = .read room

section Runs

variable {suite : TlsCipherSuite} {key iv : List UInt8} {s t : State} {e : Event}

theorem settle_secure {caller : Caller} {before : List UInt8} {result : Progress × ReadHalf}
    (h : Settled suite key iv caller before result) (s : State) :
    Secure suite key iv (settle caller s result) := by
  rcases result with ⟨progress, c⟩
  cases progress with
  | awaits a =>
      refine ⟨h.intact, ?_⟩
      intro caller' a' heq
      cases heq
      exact h.waits a rfl
  | returned answer =>
      cases answer with
      | ok bytes => exact ⟨h.intact, fun _ _ heq => (by cases heq)⟩
      | error e => exact ⟨h.intact, fun _ _ heq => (by cases heq)⟩

theorem settle_reads {room : Nat} {before : List UInt8} {result : Progress × ReadHalf}
    (h : Settled suite key iv (.read room) before result) (hgot : s.got = before) :
    ReadsAll (settle (.read room) s result) := by
  have hgives := h.gives
  rcases result with ⟨progress, c⟩
  cases progress with
  | awaits a =>
      refine ⟨hgot.trans hgives.symm, ?_⟩
      intro caller' a' heq
      cases heq
      exact ⟨room, rfl⟩
  | returned answer =>
      cases answer with
      | error e => exact ⟨hgot.trans hgives.symm, fun _ _ heq => (by cases heq)⟩
      | ok bytes =>
          refine ⟨?_, fun _ _ heq => (by cases heq)⟩
          show s.got ++ bytes = c.taken
          rw [hgot, hgives room rfl]

/-- An event keeps the half intact, or the program ends. -/
theorem next_cases (h : Secure suite key iv s) (henabled : Enabled e s) :
    (exists t, next suite e s = .ok t ∧ Secure suite key iv t ∧
      (OnlyReads e -> ReadsAll s -> ReadsAll t) ∧ ¬ Ends suite e s) ∨
      (next suite e s = .error .unwrapNone ∧
        (Ends suite e s ∨ UInt64.size ≤ s.half.keys.state.counter + 1)) := by
  cases e with
  | called caller =>
      left
      rcases call_settled h.intact caller with ⟨result, hcall, hsettled⟩
      refine ⟨settle caller s result, ?_, settle_secure hsettled s, ?_, ?_⟩
      · unfold next
        simp only
        rw [hcall]
        rfl
      · intro honly hreads
        cases caller with
        | read room => exact settle_reads hsettled hreads.got_eq
        | fillBuf => cases honly
        | readBuffered uses revert => cases honly
      · rintro ⟨n, caller', a, heq, _⟩
        cases heq
  | consumed amt =>
      left
      rcases consume_eq h.intact.range amt with ⟨k, hconsume, hk⟩
      refine ⟨{ s with half := s.half.drained k }, ?_, ⟨h.intact.drained hk, ?_⟩,
        fun honly => (by cases honly), ?_⟩
      · unfold next
        simp only
        rw [hconsume]
        rfl
      · intro caller a heq
        have hidle : s.future = none := henabled
        rw [hidle] at heq
        cases heq
      · rintro ⟨n, caller', a, heq, _⟩
        cases heq
  | arrived n =>
      rcases henabled with ⟨caller, a, hfuture, _, hrequested, _⟩
      rcases h.waits caller a hfuture with ⟨ha, hspent⟩
      have hbytes : (s.stream.take n).length ≤ a.requested s.half.recordReader :=
        Nat.le_trans (List.length_take_le _ _) hrequested
      unfold next Ends
      simp only [hfuture]
      rcases resume_settled h.intact hspent ha hbytes caller with
        ⟨result, hresume, hsettled, hlives⟩ | ⟨hresume, hkills⟩
      · left
        rw [hresume]
        refine ⟨_, rfl, settle_secure hsettled _, ?_, ?_⟩
        · intro _ hreads
          rcases hreads.reads caller a hfuture with ⟨room, hroom⟩
          subst hroom
          exact settle_reads hsettled hreads.got_eq
        · rintro ⟨n', caller', a', heq, hfuture', hkills⟩
          cases heq
          cases hfuture'
          exact hlives hkills
      · right
        rw [hresume]
        refine ⟨rfl, ?_⟩
        cases hkills with
        | inl hkills => exact Or.inl ⟨n, caller, a, rfl, rfl, hkills⟩
        | inr hcount => exact Or.inr hcount
  | dropped =>
      left
      refine ⟨_, rfl, ⟨h.intact, fun _ _ heq => (by cases heq)⟩,
        fun _ hreads => ⟨hreads.got_eq, fun _ _ heq => (by cases heq)⟩, ?_⟩
      rintro ⟨n, caller', a, heq, _⟩
      cases heq
  | transportFailed =>
      left
      refine ⟨_, rfl, ⟨h.intact, fun _ _ heq => (by cases heq)⟩,
        fun _ hreads => ⟨hreads.got_eq, fun _ _ heq => (by cases heq)⟩, ?_⟩
      rintro ⟨n, caller', a, heq, _⟩
      cases heq

theorem step_secure (h : Secure suite key iv s) (hstep : step suite e s t) :
    Secure suite key iv t ∧ (OnlyReads e -> ReadsAll s -> ReadsAll t) := by
  rcases next_cases h hstep.1 with ⟨t', hnext, hsecure, hreads, _⟩ | ⟨hnext, _⟩
  · rw [hstep.2] at hnext
    cases hnext
    exact ⟨hsecure, hreads⟩
  · rw [hstep.2] at hnext
    cases hnext

variable {keys : ReadKeySchedule} {reader : RecordReader} {stream : List UInt8}
  {es : List Event}

theorem start_secure (suite : TlsCipherSuite) (hready : reader.Ready)
    (hcount : keys.state.counter = 0) (stream : List UInt8) :
    Secure suite keys.state.key keys.state.iv (start keys reader stream) := by
  refine ⟨⟨hready.sound, ⟨Nat.le_refl _, Nat.zero_le _⟩, rfl, rfl, hcount, ?_, ?_, ?_⟩, ?_⟩
  · show keys.state.counter < UInt64.size
    rw [hcount]
    decide
  · intro i plain hget
    cases hget
  · exact window_eq_nil rfl
  · intro caller a heq
    cases heq

theorem run_secure (hready : reader.Ready) (hcount : keys.state.counter = 0)
    (hrun : Run (step suite) (start keys reader stream) es s) :
    Secure suite keys.state.key keys.state.iv s :=
  hrun.invariant (fun _ _ _ h hstep => (step_secure h hstep).1)
    (start_secure suite hready hcount stream)

theorem run_reads (hready : reader.Ready) (hcount : keys.state.counter = 0)
    (hrun : Run (step suite) (start keys reader stream) es s)
    (honly : forall e, e ∈ es -> OnlyReads e) : ReadsAll s := by
  have hguarded : Run (Guarded (fun e _ => OnlyReads e) (step suite))
      (start keys reader stream) es s := hrun.to_guarded (fun e _ he => honly e he)
  have hstart : ReadsAll (start keys reader stream) :=
    ⟨rfl, fun _ _ heq => by cases heq⟩
  have hboth := hguarded.invariant
    (P := fun s => Secure suite keys.state.key keys.state.iv s ∧ ReadsAll s)
    (fun _ _ _ h hstep =>
      ⟨(step_secure h.1 hstep.2).1, (step_secure h.1 hstep.2).2 hstep.1 h.2⟩)
    ⟨start_secure suite hready hcount stream, hstart⟩
  exact hboth.2

/-- If no record on the stream is a forgery, then whatever the stream, the calls and the
cancellations are, the accepted plaintexts are the first ones that the peer has sealed, and
`read` returns the data in them from its beginning on. -/
theorem reads_what_was_sealed {sealed : List (List UInt8)} (hready : reader.Ready)
    (hcount : keys.state.counter = 0)
    (hrun : Run (step suite) (start keys reader stream) es s)
    (hgenuine : forall header body, (header, body) ∈ s.half.handed ->
      forall i plain, i < UInt64.size ->
        suite.decrypt keys.state.key (getNonce i keys.state.iv) header.header body =
          some plain -> sealed[i]? = some plain) :
    s.half.accepted <+: sealed ∧
      s.half.taken ++ s.half.window = s.half.accepted.flatMap applicationBytes ∧
      ((forall e, e ∈ es -> OnlyReads e) ->
        s.got <+: sealed.flatMap applicationBytes) := by
  have hintact := (run_secure hready hcount hrun).intact
  have haccepted : s.half.accepted <+: sealed := by
    rw [List.prefix_iff_getElem?]
    intro i hi
    rcases hintact.opens i _ (List.getElem?_eq_getElem hi) with ⟨header, body, hmem, hopens⟩
    have hcounter := hintact.counter_eq
    have hfit := hintact.counter_lt
    exact hgenuine header body hmem i _ (by omega) hopens
  refine ⟨haccepted, hintact.text, ?_⟩
  intro honly
  rw [(run_reads hready hcount hrun honly).got_eq]
  have hfront : s.half.taken <+: s.half.accepted.flatMap applicationBytes := by
    rw [← hintact.text]
    exact List.prefix_append _ _
  rcases haccepted with ⟨more, hmore⟩
  rw [← hmore, List.flatMap_append]
  exact hfront.trans (List.prefix_append _ _)

/-! A stream of two records, for examples. -/

def sampleKeys : ReadKeySchedule :=
  { state :=
      { trafficSecret := none
        counter := 0
        key := []
        iv := List.replicate 12 7 }
    transcript := [] }

def sampleHeader : RecordHeader :=
  { header := [23, 3, 3, 0, 20] }

def sampleSealed : List (List UInt8) :=
  [[1, 2, 3, 23], [4, 5, 23, 0]]

def sampleBody (i : Nat) (plain : List UInt8) : List UInt8 :=
  transparent.encrypt [] (getNonce i sampleKeys.state.iv) sampleHeader.header plain

def sampleStream : List UInt8 :=
  sampleHeader.header ++ sampleBody 0 [1, 2, 3, 23] ++ sampleHeader.header ++
    sampleBody 1 [4, 5, 23, 0]

theorem sampleBody_opens {i j : Nat} {aad plain opened : List UInt8} (hi : i < UInt64.size)
    (hj : j < UInt64.size)
    (hopens : transparent.decrypt sampleKeys.state.key (getNonce i sampleKeys.state.iv) aad
      (sampleBody j plain) = some opened) : i = j ∧ plain = opened := by
  have hiv : 8 ≤ sampleKeys.state.iv.length := by decide
  have hnonce (n : Nat) : (getNonce n sampleKeys.state.iv).length = 12 :=
    length_getNonce n hiv
  rcases transparent_decrypt (hnonce i) (hnonce j) hopens with ⟨hsame, hplain⟩
  exact ⟨getNonce_injective hiv hi hj hsame, hplain⟩

/-- A read takes one byte of the first record, and the rest follows with the second. -/
theorem reads_what_was_sealed_sample :
    exists s, Run (step transparent)
        (start sampleKeys (RecordReader.new (List.replicate 32 0)) sampleStream)
        [.called (.read 1), .arrived 5, .arrived 20, .called (.read 8), .called (.read 8),
          .arrived 2, .dropped, .called (.read 8), .arrived 3, .arrived 20] s ∧
      s.half.accepted = sampleSealed ∧ s.got <+: sampleSealed.flatMap applicationBytes := by
  have hfound : (([.called (.read 1), .arrived 5, .arrived 20, .called (.read 8),
      .called (.read 8), .arrived 2, .dropped, .called (.read 8), .arrived 3, .arrived 20] :
      List Event).foldlM (perform transparent)
        (start sampleKeys (RecordReader.new (List.replicate 32 0)) sampleStream)).any (fun s =>
      s.half.handed == [(sampleHeader, sampleBody 0 [1, 2, 3, 23]),
        (sampleHeader, sampleBody 1 [4, 5, 23, 0])] && s.half.accepted == sampleSealed) =
      true := by
    decide +kernel
  rcases (Option.any_eq_true _ _).mp hfound with ⟨s, hsome, hs⟩
  rw [Bool.and_eq_true, beq_iff_eq, beq_iff_eq] at hs
  rcases hs with ⟨hhanded, haccepted⟩
  have hrun := Run.of_foldlM perform_step hsome
  refine ⟨s, hrun, haccepted, ?_⟩
  refine (reads_what_was_sealed (RecordReader.new_ready _) rfl hrun ?_).2.2 ?_
  · intro header body hmem i plain hi hopens
    rw [hhanded, List.mem_cons, List.mem_singleton] at hmem
    rcases hmem with hfirst | hsecond
    · cases hfirst
      rcases sampleBody_opens hi (by decide) hopens with ⟨hzero, hplain⟩
      rw [hzero, ← hplain]
      rfl
    · cases hsecond
      rcases sampleBody_opens hi (by decide) hopens with ⟨hone, hplain⟩
      rw [hone, ← hplain]
      rfl
  · simp [OnlyReads]

/-- On any stream the reading half ends the program just when the bytes that arrive
complete a fatal record, as long as the records can be counted. -/
theorem faults_iff (hready : reader.Ready) (hcount : keys.state.counter = 0)
    (hrun : Run (step suite) (start keys reader stream) es s) (henabled : Enabled e s)
    (hroom : s.half.keys.state.counter + 1 < UInt64.size) :
    (exists f, next suite e s = .error f) <-> Ends suite e s := by
  constructor
  · rintro ⟨f, hfault⟩
    rcases next_cases (run_secure hready hcount hrun) henabled with
      ⟨t, hnext, _⟩ | ⟨_, hends | hlast⟩
    · rw [hnext] at hfault
      cases hfault
    · exact hends
    · exact absurd hroom (Nat.not_lt_of_le hlast)
  · intro hends
    rcases next_cases (run_secure hready hcount hrun) henabled with
      ⟨t, _, _, _, hlives⟩ | ⟨hnext, _⟩
    · exact absurd hends hlives
    · exact ⟨_, hnext⟩

set_option maxRecDepth 2000 in
/-- A message in the clear, which anybody can send, ends the program. -/
theorem faults_iff_sample :
    exists s, Run (step transparent)
        (start sampleKeys (RecordReader.new (List.replicate 32 0))
          [22, 3, 3, 0, 6, 8, 0, 0, 2, 0, 0])
        [.called .fillBuf, .arrived 5] s ∧
      exists f, next transparent (.arrived 6) s = .error f := by
  have hruns : exists s, Run (step transparent)
        (start sampleKeys (RecordReader.new (List.replicate 32 0))
          [22, 3, 3, 0, 6, 8, 0, 0, 2, 0, 0])
        [.called .fillBuf, .arrived 5] s ∧
      Enabled (.arrived 6) s ∧ s.half.keys.state.counter + 1 < UInt64.size ∧
      Ends transparent (.arrived 6) s :=
    ⟨_, .cons ⟨rfl, rfl⟩
      (.cons ⟨⟨_, _, rfl, by decide, by decide, by decide⟩, rfl⟩ (.nil _)),
      ⟨_, _, rfl, by decide, by decide, by decide⟩,
      (show 0 + 1 < UInt64.size by decide),
      6, _, _, rfl, rfl, ⟨[22, 3, 3, 0, 6]⟩, [8, 0, 0, 2, 0, 0], _, by rfl,
      .encryptedExtensions, _, rfl, by decide⟩
  rcases hruns with ⟨s, hrun, henabled, hroom, hends⟩
  exact ⟨s, hrun, (faults_iff (RecordReader.new_ready _) rfl hrun henabled hroom).mpr hends⟩

end Runs
end ReadHalf
end EmbeddedTls
end TWA
