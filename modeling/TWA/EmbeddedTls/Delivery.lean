import TWA.EmbeddedTls.Integrity
import TWA.EmbeddedTls.ServerTexts

/-!
# Everything that an honest server sends arrives

The server numbers its texts and sends them one after the other.  The half
follows them: it has accepted the first ones, and the reader holds a part of the
record of the next.
-/

namespace TWA
namespace EmbeddedTls

open Foundation
open Foundation.Exec

theorem RecordReader.Holds.spliced {r : RecordReader} {rec : Record} {part bytes : List UInt8}
    {start : Nat} (h : Holds rec part r) (hle : r.decoded ≤ r.buf.length)
    (hfit : start + bytes.length ≤ r.decoded) :
    Holds rec part { r with buf := splice r.buf start bytes } := by
  have hroom : start + bytes.length ≤ r.buf.length := Nat.le_trans hfit hle
  have hfront : ((splice r.buf start bytes).take r.decoded).length = r.decoded := by
    rw [List.length_take, length_splice hroom]
    omega
  have hdecrypted := (h.decrypted hfront).1
  rw [← drop_splice hfit hroom, List.take_append_drop] at hdecrypted
  exact hdecrypted

namespace ReadHalf

def view (c : ReadHalf) (future : Option RecordReader.Await) (stream : List UInt8) :
    RecordReader.Connection :=
  { reader := c.recordReader
    future := future
    stream := stream
    delivered := c.handed
    errors := [] }

section Texts

variable {suite : TlsCipherSuite} {key iv : List UInt8} {size : Nat}
  {texts : List (ServerText suite)}

/-- The first texts have been accepted, and the reader follows the records of the others. -/
inductive Tracks (key iv : List UInt8) (size : Nat) (texts : List (ServerText suite))
    (c : ReadHalf) (future : Option RecordReader.Await) (stream : List UInt8) : Prop where
  | intro (done rest : List (ServerText suite)) (part : List UInt8)
      (htexts : texts = done ++ rest) (haccepted : c.accepted = done.map ServerText.plain)
      (hopened : c.opened = true)
      (hfollows : RecordReader.Follows size (ServerText.sealAll key iv 0 done)
        (ServerText.sealAll key iv done.length rest) part (c.view future stream)) :
      Tracks key iv size texts c future stream

def AllFit (size : Nat) (texts : List (ServerText suite)) : Prop :=
  forall t, t ∈ texts -> t.plain.length + suite.tagLen ≤ size

theorem sealAll_fits (key iv : List UInt8) (i : Nat) (h : AllFit size texts) :
    forall rec, rec ∈ ServerText.sealAll key iv i texts -> rec.body.length ≤ size := by
  induction texts generalizing i with
  | nil =>
      intro rec hrec
      cases hrec
  | cons t texts ih =>
      intro rec hrec
      unfold ServerText.sealAll at hrec
      rcases List.mem_cons.mp hrec with hhead | htail
      · rw [hhead]
        have hbody : (t.sealed key iv i).body.length = t.plain.length + suite.tagLen :=
          suite.length_encrypt _ _ _ _
        rw [hbody]
        exact h t List.mem_cons_self
      · exact ih (i + 1) (fun u hu => h u (List.mem_cons_of_mem t hu)) rec htail

def Delivers (key iv : List UInt8) (size : Nat) (texts : List (ServerText suite))
    (stream : List UInt8) : Progress × ReadHalf -> Prop
  | (.awaits a, c) => Tracks key iv size texts c (some a) stream
  | (.returned (.ok _), c) => Tracks key iv size texts c none stream
  | (.returned (.error _), _) => False

variable {c : ReadHalf} {stream : List UInt8}

theorem Tracks.drained {future : Option RecordReader.Await}
    (h : Tracks key iv size texts c future stream) (k : Nat) :
    Tracks key iv size texts (c.drained k) future stream := by
  rcases h with ⟨done, rest, part, htexts, haccepted, hopened, hfollows⟩
  exact ⟨done, rest, part, htexts, haccepted, hopened, hfollows⟩

theorem Tracks.dropped {future : Option RecordReader.Await}
    (h : Tracks key iv size texts c future stream) :
    Tracks key iv size texts c none stream := by
  rcases h with ⟨done, rest, part, htexts, haccepted, hopened, hfollows⟩
  refine ⟨done, rest, part, htexts, haccepted, hopened, ?_⟩
  exact ⟨hfollows.delivered, rfl, hfollows.stream, hfollows.size_eq, hfollows.holds,
    fun _ heq => (by cases heq), hfollows.ended⟩

theorem readLoop_delivers (h : Intact suite key iv c)
    (htracks : Tracks key iv size texts c none stream) (hfits : AllFit size texts)
    (caller : Caller) (fuel : Nat) :
    exists result, readLoop suite caller (fuel + 1) c = .ok result ∧
      Delivers key iv size texts stream result := by
  unfold readLoop DecryptedBufferInfo.isEmpty DecryptedBufferInfo.left
  rw [sub_of_le h.range.consumed_le, ok_bind]
  simp only [pure_eq_ok, ok_bind]
  by_cases hempty : c.decrypted.len - c.decrypted.consumed = 0
  · rw [if_pos (by rw [hempty]; rfl)]
    rcases htracks with ⟨done, rest, part, htexts, haccepted, hopened, hfollows⟩
    have hrest : AllFit size rest := by
      intro t ht
      exact hfits t (by rw [htexts]; exact List.mem_append_right _ ht)
    rcases hfollows.called (sealAll_fits key iv done.length hrest) with
      ⟨progress, hread, houtcome⟩
    have hread' : RecordReader.read c.recordReader = .ok progress := hread
    rw [hread', ok_bind]
    cases houtcome with
    | waits a r hsize hpart hholds hagrees =>
        refine ⟨_, rfl, done, rest, part, htexts, haccepted, hopened, ?_⟩
        refine ⟨hfollows.delivered, rfl, hfollows.stream, hsize, hholds, ?_, hfollows.ended⟩
        intro a' heq
        cases heq
        exact hagrees
    | done r hsize hpart hholds =>
        have hlt := hfollows.holds.length_lt
        rw [hpart] at hlt
        exact absurd hlt (Nat.lt_irrefl _)
  · rw [if_neg (by simpa using hempty)]
    rcases finish_eq h.range caller with ⟨bytes, k, hfinish, _, _⟩
    rw [hfinish, ok_bind]
    exact ⟨_, rfl, htracks.drained k⟩

theorem call_delivers (h : Intact suite key iv c)
    (htracks : Tracks key iv size texts c none stream) (hfits : AllFit size texts)
    (caller : Caller) :
    exists result, call suite caller c = .ok result ∧
      Delivers key iv size texts stream result := by
  have hopened : c.opened = true := by
    cases htracks
    assumption
  unfold call
  by_cases hzero : caller = .read 0
  · rw [if_pos hzero]
    exact ⟨_, rfl, htracks⟩
  · rw [if_neg hzero, if_pos hopened]
    exact readLoop_delivers h htracks hfits caller 1

theorem processRecord_sealed (h : Intact suite key iv c) (hspent : c.Spent)
    {t : ServerText suite} (hready : c.recordReader.Ready)
    (hle : t.header.contentLength ≤ c.recordReader.decoded)
    (hcount : c.keys.state.counter + 1 < UInt64.size) :
    exists c', processRecord suite t.header (t.sealed key iv c.accepted.length).body c =
        .ok (.ok (), c') ∧
      Intact suite key iv c' ∧ c'.accepted = c.accepted ++ [t.plain] ∧
      c'.opened = c.opened ∧
      c'.handed = c.handed ++ [(t.header, (t.sealed key iv c.accepted.length).body)] ∧
      c'.recordReader.buf.length = c.recordReader.buf.length ∧
      forall rec part, RecordReader.Holds rec part c.recordReader ->
        RecordReader.Holds rec part c'.recordReader := by
  have hlen : t.header.contentLength = (t.sealed key iv c.accepted.length).body.length :=
    (t.sealed key iv c.accepted.length).body_length.symm
  have htype : ContentType.of (t.header.header.getD 0 0) = some .applicationData := rfl
  have hharmless : Harmless suite t.plain := t.content.plain_harmless suite t.padding
  have hopens : suite.decrypt c.keys.state.key c.keys.state.nonce t.header.header
      (t.sealed key iv c.accepted.length).body = some t.plain := by
    unfold KeyScheduleState.nonce
    rw [h.key_eq, h.iv_eq, h.counter_eq]
    exact suite.decrypt_encrypt _ _ _ _
  have hfit : c.bodyStart t.header + t.plain.length ≤ c.recordReader.decoded := by
    have hlength := t.contentLength_header
    unfold bodyStart
    omega
  have hholds : forall rec part, RecordReader.Holds rec part c.recordReader ->
      RecordReader.Holds rec part { c.recordReader with
        buf := splice c.recordReader.buf (c.bodyStart t.header) t.plain } := by
    intro rec part hpart
    exact hpart.spliced hready.decoded_le hfit
  rcases processRecord_cases suite (c := c) hlen (by rw [htype]; exact Option.some_ne_none _) hle
    with ⟨result, hrun, hprocessed, _⟩ | ⟨_, hfatal | hlast⟩
  · have hkept := h.processed hspent hready hlen hle hprocessed
    cases hprocessed with
    | data plain content hopens' hplain hnext =>
        rw [hopens] at hopens'
        cases hopens'
        exact ⟨_, hrun, hkept.1, rfl, rfl, rfl, hkept.2.2, hholds⟩
    | tickets plain transcript hopens' hnone hnext =>
        rw [hopens] at hopens'
        cases hopens'
        exact ⟨_, hrun, hkept.1, rfl, rfl, rfl, hkept.2.2, hholds⟩
    | clear transcript hclear =>
        rw [htype] at hclear
        cases hclear
    | refused e transcript isOpen plain hshort hnot =>
        exact absurd hharmless (hnot _ hopens htype)
  · unfold Fatal at hfatal
    rw [htype] at hfatal
    rcases hfatal with ⟨plain, hopens', hbad⟩
    rw [hopens] at hopens'
    cases hopens'
    exact absurd hbad hharmless.not_fatalPlain
  · exact absurd hcount (Nat.not_lt_of_le hlast)

theorem resume_delivers (h : Intact suite key iv c) (hspent : c.Spent)
    {a : RecordReader.Await} (ha : RecordReader.AwaitSound c.recordReader a)
    (htracks : Tracks key iv size texts c (some a) stream) (hfits : AllFit size texts)
    (hcount : texts.length < UInt64.size) {n : Nat} (hpos : 0 < n)
    (hrequested : n ≤ a.requested c.recordReader) (hstream : n ≤ stream.length)
    (caller : Caller) :
    exists result, resume suite (stream.take n) a caller c = .ok result ∧
      Delivers key iv size texts (stream.drop n) result := by
  rcases htracks with ⟨done, rest, part, htexts, haccepted, hopened, hfollows⟩
  have hrest : AllFit size rest := by
    intro t ht
    exact hfits t (by rw [htexts]; exact List.mem_append_right _ ht)
  rcases hfollows.arrived (sealAll_fits key iv done.length hrest) rfl hrequested hpos hstream with
    ⟨⟨hlonger, hended⟩, progress, hresume, houtcome⟩
  have hresume' : RecordReader.resume (stream.take n) a c.recordReader = .ok progress := hresume
  have hbytes : (stream.take n).length ≤ a.requested c.recordReader :=
    Nat.le_trans (List.length_take_le _ _) hrequested
  rcases RecordReader.resume_landed h.reader ha hbytes with ⟨progress', hsame, hlanded⟩
  rw [hresume'] at hsame
  cases hsame
  unfold resume
  rw [hresume', ok_bind]
  cases houtcome with
  | waits a' r hsize hpart hholds hagrees =>
      refine ⟨_, rfl, done, rest, part ++ stream.take n, htexts, haccepted, hopened, ?_⟩
      refine ⟨hfollows.delivered, rfl, hlonger, hsize, hholds, ?_, hended⟩
      intro a'' heq
      cases heq
      exact hagrees
  | done r hsize hpart hholds =>
      cases rest with
      | nil =>
          have hempty : part ++ stream.take n = [] := hended rfl
          have hwire := RecordReader.emptyRecord.wire_pos
          have hpart' : part ++ stream.take n = RecordReader.emptyRecord.wire := hpart
          rw [← hpart', hempty] at hwire
          exact absurd hwire (Nat.lt_irrefl 0)
      | cons t rest =>
          have hnumber : c.accepted.length = done.length := by
            rw [haccepted, List.length_map]
          cases hlanded with
          | ready header body r' hsize' hready htype hlen hle hbody =>
              have hintact := h.reading hspent hready.sound hsize'
              have hroom : ({ c with recordReader := r } : ReadHalf).keys.state.counter + 1 <
                  UInt64.size := by
                rw [hintact.counter_eq]
                have hlength := congrArg List.length htexts
                rw [List.length_append, List.length_cons] at hlength
                simp only [hnumber]
                omega
              rcases processRecord_sealed hintact hspent (t := t) hready hle hroom with
                ⟨c', hrun, hkept, haccepted', hopened', hhanded, hsize'', hholds'⟩
              simp only [hnumber] at hrun hhanded
              have htracks' : Tracks key iv size texts c' none (stream.drop n) := by
                refine ⟨done ++ [t], rest, [], ?_, ?_, hopened'.trans hopened, ?_⟩
                · rw [htexts, List.append_assoc]
                  rfl
                · rw [haccepted', List.map_append]
                  simp only [haccepted]
                  rfl
                · refine ⟨?_, rfl, ?_, ?_, ?_, fun _ heq => (by cases heq), fun _ => rfl⟩
                  · have hbefore : c.handed = (ServerText.sealAll key iv 0 done).map Record.pair :=
                      hfollows.delivered
                    rw [ServerText.sealAll_append, List.map_append, Nat.zero_add, ← hbefore]
                    exact hhanded
                  · have hwhole : (t.sealed key iv done.length).wire ++ stream.drop n =
                        (t.sealed key iv done.length).wire ++
                          wireOf (ServerText.sealAll key iv (done.length + 1) rest) := by
                      have hpart' : part ++ stream.take n =
                        (t.sealed key iv done.length).wire := hpart
                      rw [← hpart']
                      exact hlonger.trans (by rw [hpart']; rfl)
                    rw [List.length_append, List.length_singleton]
                    exact List.append_cancel_left hwhole
                  · exact hsize''.trans hsize
                  · exact hholds' _ _ (hholds _)
              rcases readLoop_delivers hkept htracks' hfits caller 1 with
                ⟨result, hloop, hdelivers⟩
              refine ⟨result, ?_, hdelivers⟩
              simp only [recordRead]
              have hrun' : processRecord suite
                  (RecordReader.current (ServerText.sealAll key iv done.length (t :: rest))).header
                  (RecordReader.current (ServerText.sealAll key iv done.length (t :: rest))).body
                  { c with recordReader := r } = .ok (.ok (), c') := hrun
              rw [hrun', ok_bind]
              exact hloop

/-! ## Runs -/

structure Delivering (key iv : List UInt8) (size : Nat) (texts : List (ServerText suite))
    (s : State) : Prop where
  secure : Secure suite key iv s
  tracks : Tracks key iv size texts s.half (s.future.map Prod.snd) s.stream
  errors : s.errors = []

theorem settle_tracks {result : Progress × ReadHalf} {s : State} {caller : Caller}
    (h : Delivers key iv size texts s.stream result) (herrors : s.errors = []) :
    Tracks key iv size texts (settle caller s result).half
        ((settle caller s result).future.map Prod.snd) (settle caller s result).stream ∧
      (settle caller s result).errors = [] := by
  rcases result with ⟨progress, c⟩
  cases progress with
  | awaits a => exact ⟨h, herrors⟩
  | returned answer =>
      cases answer with
      | ok bytes => exact ⟨h, herrors⟩
      | error e => cases h

theorem next_delivers {s : State} {e : Event} (h : Delivering key iv size texts s)
    (hfits : AllFit size texts) (hcount : texts.length < UInt64.size)
    (henabled : Enabled e s) :
    exists t, next suite e s = .ok t ∧ Delivering key iv size texts t := by
  have hnext : exists t, next suite e s = .ok t ∧
      Tracks key iv size texts t.half (t.future.map Prod.snd) t.stream ∧ t.errors = [] := by
    have htracks := h.tracks
    cases e with
    | called caller =>
        have hidle : s.future = none := henabled
        rw [hidle] at htracks
        rcases call_delivers h.secure.intact htracks hfits caller with ⟨result, hcall, hdelivers⟩
        refine ⟨settle caller s result, ?_, settle_tracks hdelivers h.errors⟩
        unfold next
        simp only
        rw [hcall]
        rfl
    | consumed amt =>
        rcases consume_eq h.secure.intact.range amt with ⟨k, hconsume, _⟩
        refine ⟨{ s with half := s.half.drained k }, ?_, htracks.drained k, h.errors⟩
        unfold next
        simp only
        rw [hconsume]
        rfl
    | arrived n =>
        rcases henabled with ⟨caller, a, hfuture, hpos, hrequested, hstream⟩
        rcases h.secure.waits caller a hfuture with ⟨ha, hspent⟩
        rw [hfuture] at htracks
        rcases resume_delivers h.secure.intact hspent ha htracks hfits hcount hpos hrequested
          hstream caller with ⟨result, hresume, hdelivers⟩
        refine ⟨settle caller { s with stream := s.stream.drop n } result, ?_,
          settle_tracks (s := { s with stream := s.stream.drop n }) hdelivers h.errors⟩
        unfold next
        simp only [hfuture]
        rw [hresume]
        rfl
    | dropped => exact ⟨_, rfl, htracks.dropped, h.errors⟩
    | transportFailed => exact ⟨_, rfl, htracks.dropped, h.errors⟩
  rcases hnext with ⟨t, hrun, htracks, herrors⟩
  exact ⟨t, hrun, (step_secure h.secure ⟨henabled, hrun⟩).1, htracks, herrors⟩

theorem start_tracks (key iv : List UInt8) {reader : RecordReader} (hready : reader.Ready)
    (keys : ReadKeySchedule) (texts : List (ServerText suite)) :
    Tracks key iv reader.buf.length texts
      (start keys reader (wireOf (ServerText.sealAll key iv 0 texts))).half none
      (wireOf (ServerText.sealAll key iv 0 texts)) := by
  refine ⟨[], texts, [], rfl, rfl, rfl, ?_⟩
  refine ⟨rfl, rfl, rfl, rfl, ?_, fun _ heq => (by cases heq), fun _ => rfl⟩
  refine RecordReader.Holds.header hready.bodyActive ?_ hready.hdr hready.pending
    hready.decoded_le ?_
  · show reader.hdrHave < RecordHeader.len
    rw [hready.hdrHave]
    decide
  · show [] = reader.hdr.take reader.hdrHave
    rw [hready.hdrHave, List.take_zero]

section Whole

variable {reader : RecordReader} {keys : ReadKeySchedule} {es : List Event} {s : State}

theorem run_delivers (hready : reader.Ready) (hzero : keys.state.counter = 0)
    (hcount : texts.length < UInt64.size) (hfits : AllFit reader.buf.length texts)
    (hrun : Run (step suite) (start keys reader
      (wireOf (ServerText.sealAll keys.state.key keys.state.iv 0 texts))) es s) :
    Delivering keys.state.key keys.state.iv reader.buf.length texts s := by
  refine hrun.invariant
    (P := Delivering keys.state.key keys.state.iv reader.buf.length texts) ?_ ?_
  · intro e s t h hstep
    rcases next_delivers h hfits hcount hstep.1 with ⟨t', hnext, ht⟩
    rw [hstep.2] at hnext
    cases hnext
    exact ht
  · exact ⟨start_secure suite hready hzero _,
      start_tracks keys.state.key keys.state.iv hready keys texts, rfl⟩

theorem Delivering.text (h : Delivering key iv size texts s) :
    exists done rest, texts = done ++ rest ∧
      s.half.taken ++ s.half.window = done.flatMap (fun t => t.content.bytes) ∧
      (s.stream = [] -> rest = []) := by
  rcases h.tracks with ⟨done, rest, part, htexts, haccepted, _, hfollows⟩
  refine ⟨done, rest, htexts, ?_, ?_⟩
  · have hbytes : (fun t : ServerText suite => applicationBytes t.plain) =
        fun t => t.content.bytes := by
      funext t
      exact t.content.applicationBytes_plain t.padding
    rw [h.secure.intact.text, haccepted, List.flatMap_map, hbytes]
  · intro hstream
    have hnone := hfollows.finished hstream
    cases rest with
    | nil => rfl
    | cons t rest => cases hnone

/-- Whatever the sizes in which the stream of some texts arrives, wherever calls are dropped
and however callers take their data, no call fails and the program goes on; what callers
have got and what is left is the data of the first texts, and that of all of them when the
stream has been read. -/
theorem delivers_everything (hready : reader.Ready) (hzero : keys.state.counter = 0)
    (hcount : texts.length < UInt64.size) (hfits : AllFit reader.buf.length texts)
    (hrun : Run (step suite) (start keys reader
      (wireOf (ServerText.sealAll keys.state.key keys.state.iv 0 texts))) es s) :
    s.errors = [] ∧ (forall e, Enabled e s -> exists t, next suite e s = .ok t) ∧
      (forall caller a, s.future = some (caller, a) -> 0 < a.requested s.half.recordReader) ∧
      ((forall e, e ∈ es -> OnlyReads e) -> s.got = s.half.taken) ∧
      exists done rest, texts = done ++ rest ∧
        s.half.taken ++ s.half.window = done.flatMap (fun t => t.content.bytes) ∧
        (s.stream = [] -> rest = []) := by
  have hdelivering := run_delivers hready hzero hcount hfits hrun
  refine ⟨hdelivering.errors, ?_, ?_, fun honly => (run_reads hready hzero hrun honly).got_eq,
    hdelivering.text⟩
  · intro e henabled
    rcases next_delivers hdelivering hfits hcount henabled with ⟨t, hnext, _⟩
    exact ⟨t, hnext⟩
  · intro caller a hfuture
    rcases hdelivering.tracks with ⟨done, rest, part, _, _, _, hfollows⟩
    have hagrees := hfollows.agrees a (by unfold view; rw [hfuture]; rfl)
    exact (RecordReader.AwaitAgrees.requested hfollows.holds hagrees).1

end Whole
end Texts

def sampleText : ServerText transparent where
  content := .data [1, 2, 3]
  padding := 2
  fits := by decide

/-- A ticket that offers early data and has an extension nobody knows. -/
def sampleTicket : SessionTicket where
  lifetime := 7200
  ageAdd := 5
  nonce := [1]
  ticket := [9]
  extensions := [⟨42, [0, 0, 0, 8], by decide, by decide, by decide⟩,
    ⟨0x1A1A, [], by decide, by decide, by decide⟩]
  lifetime_lt := by decide
  ageAdd_lt := by decide
  nonce_lt := by decide
  ticket_lt := by decide
  extensions_lt := by decide
  extensions_once := by decide

def sampleTickets : ServerText transparent where
  content := .tickets [sampleTicket]
  padding := 0
  fits := by decide

/-- A ticket arrives in front of the data.  A read is dropped inside a header, and the data of
the record is taken in two calls. -/
theorem delivers_everything_sample :
    exists s, Run (step transparent)
        (start sampleKeys (RecordReader.new (List.replicate 64 0))
          (wireOf (ServerText.sealAll sampleKeys.state.key sampleKeys.state.iv 0
            [sampleTickets, sampleText])))
        [.called (.read 8), .arrived 2, .dropped, .called (.read 2), .arrived 3, .arrived 48,
          .arrived 5, .arrived 22, .called (.read 8)] s ∧
      s.got = [1, 2, 3] ∧ s.errors = [] := by
  have hfound : (([.called (.read 8), .arrived 2, .dropped, .called (.read 2), .arrived 3,
      .arrived 48, .arrived 5, .arrived 22, .called (.read 8)] : List Event).foldlM
        (perform transparent)
        (start sampleKeys (RecordReader.new (List.replicate 64 0))
          (wireOf (ServerText.sealAll sampleKeys.state.key sampleKeys.state.iv 0
            [sampleTickets, sampleText])))).any (fun s => s.got == [1, 2, 3]) = true := by
    decide +kernel
  rcases (Option.any_eq_true _ _).mp hfound with ⟨s, hsome, hgot⟩
  have hrun := Run.of_foldlM perform_step hsome
  have hfits : AllFit (RecordReader.new (List.replicate 64 0)).buf.length
      [sampleTickets, sampleText] := by
    intro t ht
    rcases List.mem_cons.mp ht with hticket | hdata
    · rw [hticket]
      decide
    · rw [List.mem_singleton.mp hdata]
      decide
  exact ⟨s, hrun, beq_iff_eq.mp hgot,
    (delivers_everything (RecordReader.new_ready _) rfl (by decide) hfits hrun).1⟩

end ReadHalf
end EmbeddedTls
end TWA
