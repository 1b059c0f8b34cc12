import TWA.EmbeddedTls.AnyStream
import TWA.EmbeddedTls.ReadHalf

/-!
# Handling a record

What becomes of a record that is handed over, whatever its bytes are: its data is
noted, its tickets are passed over, or it is refused.  The program ends only when
a message of another kind stands in the record, or nothing at all.
-/

namespace TWA
namespace EmbeddedTls

open Foundation
open Foundation.Exec

theorem ContentType.of_toByte (t : ContentType) : ContentType.of t.toByte = some t := by
  cases t <;> rfl

theorem ContentType.toByte_of {b : UInt8} {t : ContentType} (h : ContentType.of b = some t) :
    b = t.toByte := by
  unfold ContentType.of at h
  split at h
  · cases h
    assumption
  · split at h
    · cases h
      assumption
    · split at h
      · cases h
        assumption
      · split at h
        · cases h
          assumption
        · split at h
          · cases h
            assumption
          · cases h

def applicationBytes (plain : List UInt8) : List UInt8 :=
  let appData := stripPadding plain
  if appData.getLast? = some ContentType.applicationData.toByte then
    appData.take (appData.length - 1)
  else []

section Messages

variable (suite : TlsCipherSuite)

inductive OtherMessage : ParseBuffer -> Prop where
  | here {buf buf' : ParseBuffer} {h : ServerHandshake}
      (hparse : ServerHandshake.parse suite buf = .ok (.ok h, buf'))
      (hother : h ≠ .newSessionTicket) : OtherMessage buf
  | behind {buf buf' : ParseBuffer}
      (hparse : ServerHandshake.parse suite buf = .ok (.ok .newSessionTicket, buf'))
      (hlater : OtherMessage buf') : OtherMessage buf

inductive OnlyTickets : ParseBuffer -> Prop where
  | nil {buf : ParseBuffer} (hend : buf.buffer.length - buf.pos = 0) : OnlyTickets buf
  | cons {buf buf' : ParseBuffer}
      (hparse : ServerHandshake.parse suite buf = .ok (.ok .newSessionTicket, buf'))
      (hlater : OnlyTickets buf') : OnlyTickets buf

variable {suite}

theorem not_otherMessage_of_failure {buf buf' : ParseBuffer} {e : ProtocolError}
    (hrun : ServerHandshake.parse suite buf = .ok (.error e, buf')) :
    ¬ OtherMessage suite buf := by
  intro h
  cases h with
  | here hparse _ =>
      rw [hrun] at hparse
      cases hparse
  | behind hparse _ =>
      rw [hrun] at hparse
      cases hparse

theorem otherMessage_behind {buf buf' : ParseBuffer}
    (hrun : ServerHandshake.parse suite buf = .ok (.ok .newSessionTicket, buf')) :
    OtherMessage suite buf <-> OtherMessage suite buf' := by
  constructor
  · intro h
    cases h with
    | here hparse hother =>
        rw [hrun] at hparse
        cases hparse
        exact absurd rfl hother
    | behind hparse hlater =>
        rw [hrun] at hparse
        cases hparse
        exact hlater
  · intro h
    exact OtherMessage.behind hrun h

theorem not_otherMessage_of_end {buf : ParseBuffer} (hbuf : buf.Valid)
    (hend : buf.buffer.length - buf.pos = 0) : ¬ OtherMessage suite buf := by
  rcases ServerHandshake.parse_safe suite buf hbuf with ⟨r, k, hrun, hk, hr⟩
  cases r with
  | error e => exact not_otherMessage_of_failure hrun
  | ok h =>
      have hlong := (hr h rfl).1
      omega

theorem not_onlyTickets_of_failure {buf buf' : ParseBuffer} {e : ProtocolError}
    (hrun : ServerHandshake.parse suite buf = .ok (.error e, buf'))
    (hmore : buf.buffer.length - buf.pos > 0) : ¬ OnlyTickets suite buf := by
  intro h
  cases h with
  | nil hend => omega
  | cons hparse _ =>
      rw [hrun] at hparse
      cases hparse

theorem onlyTickets_behind {buf buf' : ParseBuffer}
    (hrun : ServerHandshake.parse suite buf = .ok (.ok .newSessionTicket, buf'))
    (hmore : buf.buffer.length - buf.pos > 0) (h : OnlyTickets suite buf) :
    OnlyTickets suite buf' := by
  cases h with
  | nil hend => omega
  | cons hparse hlater =>
      rw [hrun] at hparse
      cases hparse
      exact hlater

theorem OnlyTickets.not_otherMessage {buf : ParseBuffer} (h : OnlyTickets suite buf)
    (hbuf : buf.Valid) : ¬ OtherMessage suite buf := by
  induction h with
  | nil hend => exact not_otherMessage_of_end hbuf hend
  | cons hparse _ ih =>
      rename_i buf buf' _
      rcases ServerHandshake.parse_safe suite buf hbuf with ⟨r, k, hrun, hk, _⟩
      rw [hrun] at hparse
      cases hparse
      rw [otherMessage_behind hrun]
      exact ih hk

theorem handle_withHash (transcript : Transcript) {h : ServerHandshake}
    (hother : h ≠ .newSessionTicket) (state : ReadKeySchedule × HandlerState) :
    DecryptedReadHandler.handle (.handshake (h.withHash suite transcript)) state = panicked := by
  cases h with
  | newSessionTicket => exact absurd rfl hother
  | serverHello hello => rfl
  | encryptedExtensions => rfl
  | certificate cert => rfl
  | certificateRequest request => rfl
  | certificateVerify verify => rfl
  | finished f => rfl

/-- The loop over the messages of a record digests tickets and changes nothing else, unless
it comes to another message. -/
theorem handshakeLoop_cases (fuel : Nat) {buf : ParseBuffer} (hbuf : buf.Valid)
    (hfuel : buf.buffer.length - buf.pos < fuel) (keys : ReadKeySchedule) (s : HandlerState) :
    (exists r transcript,
      handshakeLoop suite DecryptedReadHandler.handle fuel buf (keys, s) =
        .ok (r, ({ keys with transcript := transcript }, s)) ∧ ¬ OtherMessage suite buf ∧
          (OnlyTickets suite buf -> r = .ok ())) ∨
      (handshakeLoop suite DecryptedReadHandler.handle fuel buf (keys, s) =
        .error .unwrapNone ∧ OtherMessage suite buf) := by
  induction fuel generalizing buf keys with
  | zero => exact absurd hfuel (Nat.not_lt_zero _)
  | succ fuel ih =>
      unfold handshakeLoop
      rw [sub_of_le hbuf, ok_bind]
      by_cases hmore : buf.buffer.length - buf.pos > 0
      · rw [if_pos hmore]
        rcases ServerHandshake.parse_safe suite buf hbuf with ⟨r, k, hrun, hk, hr⟩
        cases r with
        | error e =>
            left
            rw [ServerHandshake.read_of_failure suite _ hrun]
            exact ⟨.error e, keys.transcript, rfl, not_otherMessage_of_failure hrun,
              fun honly => absurd honly (not_onlyTickets_of_failure hrun hmore)⟩
        | ok h =>
            have hlong := (hr h rfl).1
            rw [ServerHandshake.read_of_parse suite _ hrun hk, ok_bind]
            by_cases hticket : h = .newSessionTicket
            · subst hticket
              have hvalid : (buf.advance k).Valid := hk
              have hshort : (buf.advance k).buffer.length - (buf.advance k).pos < fuel := by
                simp only [Cursor.advance_buffer, Cursor.advance_pos]
                omega
              rw [otherMessage_behind hrun]
              rcases ih hvalid hshort _ with ⟨r, transcript, hloop, hnot, honly⟩ | hother
              · left
                exact ⟨r, transcript, hloop, hnot,
                  fun h => honly (onlyTickets_behind hrun hmore h)⟩
              · right
                exact hother
            · right
              simp only [handle_withHash _ hticket]
              exact ⟨rfl, OtherMessage.here hrun hticket⟩
      · rw [if_neg hmore]
        left
        exact ⟨.ok (), keys.transcript, rfl, not_otherMessage_of_end hbuf (by omega),
          fun _ => rfl⟩

end Messages

/-! ## The plaintext of a record -/

/-- The plaintext holds nothing, or a message that is not a ticket. -/
def FatalPlain (suite : TlsCipherSuite) (plain : List UInt8) : Prop :=
  stripPadding plain = [] ∨
    exists content, stripPadding plain = content ++ [ContentType.handshake.toByte] ∧
      OtherMessage suite (Cursor.start content)

def Harmless (suite : TlsCipherSuite) (plain : List UInt8) : Prop :=
  exists content,
    stripPadding plain = content ++ [ContentType.applicationData.toByte] ∨
      (stripPadding plain = content ++ [ContentType.handshake.toByte] ∧
        OnlyTickets suite (Cursor.start content))

def ReadKeySchedule.counted (keys : ReadKeySchedule) : ReadKeySchedule :=
  { keys with state := { keys.state with counter := keys.state.counter + 1 } }

inductive Handled (suite : TlsCipherSuite) (keys : ReadKeySchedule) (s : HandlerState) (start : Nat)
    (plain : List UInt8) : Except ProtocolError Unit × (ReadKeySchedule × HandlerState) ->
      Prop where
  | data (content : List UInt8)
      (hplain : stripPadding plain = content ++ [ContentType.applicationData.toByte])
      (hcount : keys.state.counter + 1 < UInt64.size) :
      Handled suite keys s start plain
        (.ok (), (keys.counted,
          { s with info := { offset := start, len := content.length, consumed := 0 } }))
  | tickets (transcript : Transcript) (hnone : applicationBytes plain = [])
      (hcount : keys.state.counter + 1 < UInt64.size) :
      Handled suite keys s start plain
        (.ok (), (ReadKeySchedule.counted { keys with transcript := transcript }, s))
  | refused (e : ProtocolError) (transcript : Transcript) (isOpen : Bool)
      (hnot : ¬ Harmless suite plain) :
      Handled suite keys s start plain
        (.error e, ({ keys with transcript := transcript }, { s with isOpen := isOpen }))

theorem incrementCounter_cases (s : KeyScheduleState) :
    (s.incrementCounter = .ok { s with counter := s.counter + 1 } ∧
      s.counter + 1 < UInt64.size) ∨
      (s.incrementCounter = .error .unwrapNone ∧ UInt64.size ≤ s.counter + 1) := by
  unfold KeyScheduleState.incrementCounter TlsConnection.incrementCounter
  by_cases hfit : s.counter + 1 < UInt64.size
  · left
    rw [if_pos hfit]
    exact ⟨rfl, hfit⟩
  · right
    rw [if_neg hfit]
    exact ⟨rfl, Nat.le_of_not_lt hfit⟩

theorem applicationBytes_of_data {plain content : List UInt8}
    (h : stripPadding plain = content ++ [ContentType.applicationData.toByte]) :
    applicationBytes plain = content := by
  unfold applicationBytes
  simp only [h]
  rw [if_pos List.getLast?_concat, List.length_append, List.length_singleton,
    Nat.add_sub_cancel, List.take_left']
  rfl

theorem applicationBytes_of_other {plain content : List UInt8} {b : UInt8}
    (h : stripPadding plain = content ++ [b]) (hb : b ≠ ContentType.applicationData.toByte) :
    applicationBytes plain = [] := by
  unfold applicationBytes
  simp only [h]
  rw [List.getLast?_concat, if_neg]
  intro heq
  exact hb (Option.some.inj heq)

theorem handle_alert (a : Alert) (keys : ReadKeySchedule) (s : HandlerState) :
    exists e isOpen, DecryptedReadHandler.handle (.alert a) (keys, s) =
      .ok (.error e, (keys, { s with isOpen := isOpen })) := by
  simp only [DecryptedReadHandler.handle]
  by_cases hclose : a.description = .closeNotify
  · rw [if_pos hclose]
    exact ⟨.connectionClosed, false, rfl⟩
  · rw [if_neg hclose]
    exact ⟨.internalError, s.isOpen, rfl⟩

section Plaintext

variable {suite : TlsCipherSuite}

theorem not_fatalPlain {plain content : List UInt8} {b : UInt8}
    (h : stripPadding plain = content ++ [b]) (hb : b ≠ ContentType.handshake.toByte) :
    ¬ FatalPlain suite plain := by
  intro hfatal
  unfold FatalPlain at hfatal
  rw [h] at hfatal
  rcases hfatal with hempty | ⟨content', hsame, _⟩
  · exact absurd hempty (List.append_ne_nil_of_right_ne_nil _ (List.cons_ne_nil _ _))
  · exact hb (List.cons.inj (List.append_inj' hsame rfl).2).1

theorem Harmless.cases_on {plain content : List UInt8} {b : UInt8} (h : Harmless suite plain)
    (hstrip : stripPadding plain = content ++ [b]) :
    b = ContentType.applicationData.toByte ∨
      (b = ContentType.handshake.toByte ∧ OnlyTickets suite (Cursor.start content)) := by
  unfold Harmless at h
  rw [hstrip] at h
  rcases h with ⟨content', hdata | ⟨htickets, honly⟩⟩
  · exact Or.inl (List.cons.inj (List.append_inj' hdata rfl).2).1
  · right
    rw [(List.append_inj' htickets rfl).1]
    exact ⟨(List.cons.inj (List.append_inj' htickets rfl).2).1, honly⟩

theorem not_harmless {plain content : List UInt8} {b : UInt8}
    (hstrip : stripPadding plain = content ++ [b])
    (hdata : b ≠ ContentType.applicationData.toByte)
    (hhandshake : b ≠ ContentType.handshake.toByte) : ¬ Harmless suite plain := by
  intro h
  rcases h.cases_on hstrip with heq | ⟨heq, _⟩
  · exact hdata heq
  · exact hhandshake heq

theorem Harmless.not_fatalPlain {plain : List UInt8} (h : Harmless suite plain) :
    ¬ FatalPlain suite plain := by
  rcases h with ⟨content, hdata | ⟨htickets, honly⟩⟩
  · exact EmbeddedTls.not_fatalPlain hdata (by decide)
  · intro hfatal
    unfold FatalPlain at hfatal
    rw [htickets] at hfatal
    rcases hfatal with hempty | ⟨content', hsame, hother⟩
    · exact absurd hempty (List.append_ne_nil_of_right_ne_nil _ (List.cons_ne_nil _ _))
    · rw [← (List.append_inj' hsame rfl).1] at hother
      exact honly.not_otherMessage (Cursor.start_valid content) hother

end Plaintext

/-- A plaintext is handled, or the program ends; the second happens just for a fatal one, or
when the records cannot be counted any more. -/
theorem handlePlain_cases (suite : TlsCipherSuite) (header : RecordHeader) (start : Nat)
    (plain : List UInt8)
    (keys : ReadKeySchedule) (s : HandlerState) :
    (exists result,
      handlePlain suite DecryptedReadHandler.handle header start plain (keys, s) = .ok result ∧
        Handled suite keys s start plain result ∧ ¬ FatalPlain suite plain) ∨
      (handlePlain suite DecryptedReadHandler.handle header start plain (keys, s) =
        .error .unwrapNone ∧
          (FatalPlain suite plain ∨ UInt64.size ≤ keys.state.counter + 1)) := by
  unfold handlePlain
  simp only
  cases hsplit : (stripPadding plain).getLast? with
  | none =>
      right
      exact ⟨rfl, Or.inl (Or.inl (List.getLast?_eq_none_iff.mp hsplit))⟩
  | some last =>
      rcases List.getLast?_eq_some_iff.mp hsplit with ⟨content, hstrip⟩
      have hcontent : (stripPadding plain).take ((stripPadding plain).length - 1) = content := by
        rw [hstrip, List.length_append, List.length_singleton, Nat.add_sub_cancel,
          List.take_left' rfl]
      simp only [hcontent]
      cases htype : ContentType.of last with
      | none =>
          left
          have hother (t : ContentType) : last ≠ t.toByte := by
            intro hlast
            rw [hlast, ContentType.of_toByte] at htype
            cases htype
          exact ⟨_, rfl, Handled.refused _ keys.transcript s.isOpen
            (not_harmless hstrip (hother _) (hother _)), not_fatalPlain hstrip (hother _)⟩
      | some contentType =>
          have hlast := ContentType.toByte_of htype
          cases contentType with
          | invalid =>
              left
              exact ⟨_, rfl, Handled.refused _ keys.transcript s.isOpen
                (not_harmless hstrip (by rw [hlast]; decide) (by rw [hlast]; decide)),
                not_fatalPlain hstrip (by rw [hlast]; decide)⟩
          | changeCipherSpec =>
              left
              exact ⟨_, rfl, Handled.refused _ keys.transcript s.isOpen
                (not_harmless hstrip (by rw [hlast]; decide) (by rw [hlast]; decide)),
                not_fatalPlain hstrip (by rw [hlast]; decide)⟩
          | alert =>
              left
              have hfine : ¬ FatalPlain suite plain :=
                not_fatalPlain hstrip (by rw [hlast]; decide)
              have hnot : ¬ Harmless suite plain :=
                not_harmless hstrip (by rw [hlast]; decide) (by rw [hlast]; decide)
              rcases alert_safe (Cursor.start content) (Cursor.start_valid content) with
                ⟨r, k, hrun, _, _⟩
              simp only [handleContent, ServerRecord.parseAll, hrun, ok_bind, pure_eq_ok]
              cases r with
              | error e =>
                  exact ⟨_, rfl, Handled.refused _ keys.transcript s.isOpen hnot, hfine⟩
              | ok a =>
                  rcases handle_alert a keys s with ⟨e, isOpen, hhandle⟩
                  simp only [hhandle, ok_bind]
                  exact ⟨_, rfl, Handled.refused _ keys.transcript isOpen hnot, hfine⟩
          | handshake =>
              have hfuel : (Cursor.start content).buffer.length - (Cursor.start content).pos <
                  content.length + 1 :=
                Nat.lt_succ_of_le (Nat.sub_le _ _)
              rcases handshakeLoop_cases (content.length + 1) (Cursor.start_valid content) hfuel
                keys s with ⟨r, transcript, hloop, hnot, honly⟩ | ⟨hloop, hother⟩
              · have hfine : ¬ FatalPlain suite plain := by
                  intro hfatal
                  unfold FatalPlain at hfatal
                  rw [hstrip] at hfatal
                  rcases hfatal with hempty | ⟨content', hsame, hother⟩
                  · exact absurd hempty
                      (List.append_ne_nil_of_right_ne_nil _ (List.cons_ne_nil _ _))
                  · rw [← (List.append_inj' hsame rfl).1] at hother
                    exact hnot hother
                simp only [handleContent, hloop, ok_bind]
                cases r with
                | error e =>
                    left
                    refine ⟨_, rfl, Handled.refused _ transcript s.isOpen ?_, hfine⟩
                    intro hharmless
                    rcases hharmless.cases_on hstrip with hdata | ⟨_, htickets⟩
                    · rw [hlast] at hdata
                      cases hdata
                    · cases honly htickets
                | ok _ =>
                    rcases incrementCounter_cases keys.state with ⟨hnext, hcount⟩ | ⟨hnext, hcount⟩
                    · left
                      simp only [hnext, ok_bind]
                      refine ⟨_, rfl, Handled.tickets transcript ?_ hcount, hfine⟩
                      exact applicationBytes_of_other hstrip (by rw [hlast]; decide)
                    · right
                      simp only [hnext, error_bind]
                      exact ⟨True.intro, Or.inr hcount⟩
              · right
                constructor
                · simp only [handleContent, hloop, error_bind]
                · exact Or.inl (Or.inr ⟨content, by rw [hstrip, hlast], hother⟩)
          | applicationData =>
              simp only [handleContent, DecryptedReadHandler.handle, pure_eq_ok, ok_bind]
              rcases incrementCounter_cases keys.state with ⟨hnext, hcount⟩ | ⟨hnext, hcount⟩
              · left
                simp only [hnext, ok_bind]
                refine ⟨_, rfl, Handled.data content ?_ hcount, ?_⟩
                · rw [hstrip, hlast]
                · exact not_fatalPlain hstrip (by rw [hlast]; decide)
              · right
                simp only [hnext, error_bind]
                exact ⟨True.intro, Or.inr hcount⟩

/-! ## Records -/

/-- The record ends the program: in it, or sealed in it, stands nothing or a message that is
not a ticket. -/
def Fatal (suite : TlsCipherSuite) (keys : ReadKeySchedule) (header : RecordHeader)
    (body : List UInt8) : Prop :=
  match ContentType.of (header.header.getD 0 0) with
  | some .handshake =>
      exists h buf', ServerHandshake.parse suite (Cursor.start body) = .ok (.ok h, buf') ∧
        h ≠ .newSessionTicket
  | some .applicationData =>
      exists plain, suite.decrypt keys.state.key keys.state.nonce header.header body =
        some plain ∧ FatalPlain suite plain
  | _ => False

namespace ReadHalf

def bodyStart (c : ReadHalf) (header : RecordHeader) : Nat :=
  c.recordReader.decoded - header.contentLength

def overwritten (c : ReadHalf) (header : RecordHeader) (body plain : List UInt8) : ReadHalf :=
  { c with
    handed := c.handed ++ [(header, body)]
    recordReader :=
      { c.recordReader with buf := splice c.recordReader.buf (c.bodyStart header) plain } }

inductive Processed (suite : TlsCipherSuite) (c : ReadHalf) (header : RecordHeader)
    (body : List UInt8) : Except ProtocolError Unit × ReadHalf -> Prop where
  | data (plain content : List UInt8)
      (hopens : suite.decrypt c.keys.state.key c.keys.state.nonce header.header body =
        some plain)
      (hplain : stripPadding plain = content ++ [ContentType.applicationData.toByte])
      (hcount : c.keys.state.counter + 1 < UInt64.size) :
      Processed suite c header body
        (.ok (), { c.overwritten header body plain with
          keys := c.keys.counted
          decrypted := { offset := c.bodyStart header, len := content.length, consumed := 0 }
          accepted := c.accepted ++ [plain] })
  | tickets (plain : List UInt8) (transcript : Transcript)
      (hopens : suite.decrypt c.keys.state.key c.keys.state.nonce header.header body =
        some plain)
      (hnone : applicationBytes plain = [])
      (hcount : c.keys.state.counter + 1 < UInt64.size) :
      Processed suite c header body
        (.ok (), { c.overwritten header body plain with
          keys := ReadKeySchedule.counted { c.keys with transcript := transcript }
          accepted := c.accepted ++ [plain] })
  | clear (transcript : Transcript)
      (htype : ContentType.of (header.header.getD 0 0) = some .handshake) :
      Processed suite c header body
        (.ok (), { c.overwritten header body [] with
          keys := { c.keys with transcript := transcript } })
  | refused (e : ProtocolError) (transcript : Transcript) (isOpen : Bool)
      (plain : List UInt8) (hfit : plain.length ≤ body.length)
      (hnot : forall text, suite.decrypt c.keys.state.key c.keys.state.nonce header.header body =
        some text -> ContentType.of (header.header.getD 0 0) = some .applicationData ->
          ¬ Harmless suite text) :
      Processed suite c header body
        (.error e, { c.overwritten header body plain with
          keys := { c.keys with transcript := transcript }
          opened := isOpen })

section Records

variable {suite : TlsCipherSuite} {c : ReadHalf} {header : RecordHeader} {body : List UInt8}

theorem overwritten_nil (c : ReadHalf) (header : RecordHeader) (body : List UInt8) :
    c.overwritten header body [] = { c with handed := c.handed ++ [(header, body)] } := by
  unfold overwritten
  rw [splice_nil]

theorem Processed.other (e : ProtocolError) (transcript : Transcript) (isOpen : Bool)
    {contentType : ContentType} (hof : ContentType.of (header.header.getD 0 0) = some contentType)
    (hother : contentType ≠ .applicationData) :
    Processed suite c header body
      (.error e, { c.overwritten header body [] with
        keys := { c.keys with transcript := transcript }
        opened := isOpen }) := by
  refine Processed.refused e transcript isOpen [] (Nat.zero_le _) ?_
  intro text _ htype
  rw [hof] at htype
  exact absurd (Option.some.inj htype) hother

theorem Processed.unread (e : ProtocolError) (transcript : Transcript)
    {contentType : ContentType} (hof : ContentType.of (header.header.getD 0 0) = some contentType)
    (hother : contentType ≠ .applicationData) :
    Processed suite c header body
      (.error e, { c with
        handed := c.handed ++ [(header, body)]
        keys := { c.keys with transcript := transcript } }) := by
  have hrefused : Processed suite c header body _ :=
    Processed.other e transcript c.opened hof hother
  rw [overwritten_nil] at hrefused
  exact hrefused

theorem processRecord_cases (suite : TlsCipherSuite) (hlen : header.contentLength = body.length)
    (htype : ContentType.of (header.header.getD 0 0) ≠ none)
    (hle : header.contentLength ≤ c.recordReader.decoded) :
    (exists result, processRecord suite header body c = .ok result ∧
      Processed suite c header body result ∧ ¬ Fatal suite c.keys header body) ∨
      (processRecord suite header body c = .error .unwrapNone ∧
        (Fatal suite c.keys header body ∨ UInt64.size ≤ c.keys.state.counter + 1)) := by
  unfold processRecord ServerRecord.decode Fatal
  simp only
  rw [sub_of_le hle, ok_bind, if_neg (by simp [hlen])]
  cases hof : ContentType.of (header.header.getD 0 0) with
  | none => exact absurd hof htype
  | some contentType =>
      cases contentType with
      | invalid =>
          left
          exact ⟨_, rfl, Processed.unread _ _ hof (by decide), id⟩
      | changeCipherSpec =>
          left
          exact ⟨_, rfl, Processed.other _ c.keys.transcript c.opened hof (by decide), id⟩
      | alert =>
          left
          rcases alert_safe (Cursor.start body) (Cursor.start_valid body) with
            ⟨r, k, hrun, _, _⟩
          simp only [ServerRecord.parseAll, hrun, ok_bind, pure_eq_ok]
          cases r with
          | error e => exact ⟨_, rfl, Processed.unread _ _ hof (by decide), id⟩
          | ok a =>
              rcases handle_alert a c.keys { info := c.decrypted, isOpen := c.opened } with
                ⟨e, isOpen, hhandle⟩
              simp only [decryptRecord, hhandle, ok_bind, pure_eq_ok]
              exact ⟨_, rfl, Processed.other _ c.keys.transcript isOpen hof (by decide), id⟩
      | handshake =>
          rcases ServerHandshake.parse_safe suite (Cursor.start body)
            (Cursor.start_valid body) with ⟨r, k, hrun, hk, _⟩
          cases r with
          | error e =>
              left
              simp only [ServerRecord.parseAll, ServerHandshake.read_of_failure suite _ hrun,
                ok_bind, pure_eq_ok]
              refine ⟨_, rfl, Processed.unread _ _ hof (by decide), ?_⟩
              rintro ⟨h, buf', hparse, _⟩
              rw [hrun] at hparse
              cases hparse
          | ok h =>
              simp only [ServerRecord.parseAll, ServerHandshake.read_of_parse suite _ hrun hk,
                ok_bind, pure_eq_ok, decryptRecord]
              by_cases hticket : h = .newSessionTicket
              · left
                subst hticket
                refine ⟨_, rfl, Processed.clear _ hof, ?_⟩
                rintro ⟨h, buf', hparse, hother⟩
                rw [hrun] at hparse
                cases hparse
                exact hother rfl
              · right
                constructor
                · simp only [handle_withHash _ hticket]
                  rfl
                · exact Or.inl ⟨h, _, hrun, hticket⟩
      | applicationData =>
          simp only [pure_eq_ok, ok_bind, decryptRecord]
          cases hopens : suite.decrypt c.keys.state.key c.keys.state.nonce header.header body with
          | none =>
              left
              refine ⟨_, rfl, Processed.refused _ c.keys.transcript c.opened [] (Nat.zero_le _) ?_,
                ?_⟩
              · intro text htext _
                rw [hopens] at htext
                cases htext
              · rintro ⟨plain, hplain, _⟩
                cases hplain
          | some plain =>
              have hfit : plain.length ≤ body.length := by
                rw [suite.length_decrypt _ _ _ _ _ hopens]
                exact Nat.le_add_right _ _
              rcases handlePlain_cases suite header (c.bodyStart header) plain c.keys
                { info := c.decrypted, isOpen := c.opened } with
                ⟨result, hrun, hhandled, hfine⟩ | ⟨hrun, hfatal⟩
              · left
                unfold bodyStart at hrun
                simp only [hrun, ok_bind]
                refine ⟨_, rfl, ?_, ?_⟩
                · cases hhandled with
                  | data content hplain hcount =>
                      exact Processed.data plain content hopens hplain hcount
                  | tickets transcript hnone hcount =>
                      exact Processed.tickets plain transcript hopens hnone hcount
                  | refused e transcript isOpen hnot =>
                      refine Processed.refused e transcript isOpen plain hfit ?_
                      intro text htext _
                      rw [hopens] at htext
                      cases htext
                      exact hnot
                · rintro ⟨plain', hplain, hfatal⟩
                  cases hplain
                  exact hfine hfatal
              · right
                unfold bodyStart at hrun
                constructor
                · simp only [hrun, error_bind]
                · cases hfatal with
                  | inl hfatal => exact Or.inl ⟨plain, rfl, hfatal⟩
                  | inr hcount => exact Or.inr hcount

end Records
end ReadHalf
end EmbeddedTls
end TWA
