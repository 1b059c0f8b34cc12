import TWA.EmbeddedTls.Handling

/-!
# The messages in a record

What a callback sees of a record is a message that stands in its bytes.  So what
holds before a record, and is kept by the callback for every message, holds
behind it, whatever the bytes are; and messages that are written one behind the
other are handed over one by one.
-/

namespace TWA
namespace EmbeddedTls

open Foundation
open Foundation.Exec
open ParseBuffer

section Messages

variable (suite : TlsCipherSuite)

def IsMessage (h : ServerHandshake) (bytes : List UInt8) : Prop :=
  exists buf : ParseBuffer, buf.Valid ∧ bytes <+: buf.rest ∧
    ServerHandshake.parse suite buf = .ok (.ok h, buf.advance bytes.length)

def finishedBytes (len verify : List UInt8) : List UInt8 :=
  HandshakeType.finished.toByte :: (len ++ verify)

variable {suite}

theorem isMessage_of_parse {buf : ParseBuffer} {k : Nat} {h : ServerHandshake}
    (hbuf : buf.Valid) (hk : buf.pos + k ≤ buf.buffer.length)
    (hrun : ServerHandshake.parse suite buf = .ok (.ok h, buf.advance k)) :
    IsMessage suite h (buf.rest.take k) := by
  have hlen : (buf.rest.take k).length = k := by
    rw [List.length_take, Cursor.length_rest]
    omega
  exact ⟨buf, hbuf, List.take_prefix _ _, by rw [hlen]; exact hrun⟩

/-! ## A finished message -/

theorem readU8_spells : readU8.Spells (fun value tok => tok = [value]) := by
  intro c value c' hc hrun
  unfold readU8 at hrun
  split at hrun
  · rename_i hlt
    rw [index_of_lt hlt, ok_bind] at hrun
    cases hrun
    refine ⟨1, rfl, hlt, ?_⟩
    unfold Cursor.rest
    rw [List.drop_eq_getElem_cons hlt]
    rfl
  · cases hrun

theorem readNumber_spells (width : Nat) :
    (readNumber width).Spells (fun _ tok => tok.length = width) := by
  intro c value c' hc hrun
  unfold readNumber at hrun
  split at hrun
  · rename_i hfit
    rw [mapM_index_range _ _ _ hfit, ok_bind] at hrun
    cases hrun
    refine ⟨width, rfl, hfit, ?_⟩
    show (c.rest.take width).length = width
    rw [List.length_take, Cursor.length_rest]
    omega
  · cases hrun

theorem parseCode_spells {code enum : Type} [BEq code] [LawfulBEq code] {read : Parse code}
    {P : code -> List UInt8 -> Prop} (hread : read.Spells P) (all : List enum)
    (codeOf : enum -> code) :
    (parseCode read all codeOf).Spells (fun x tok => P (codeOf x) tok) := by
  unfold parseCode
  refine Parser.Spells.mono (Parser.Spells.bind
    (R := fun value x tok => codeOf x = value ∧ tok = []) hread ?_) ?_
  · intro value
    split
    · rename_i x hfind
      refine (Parser.Spells.succeed x).mono ?_
      rintro y tok ⟨rfl, rfl⟩
      have hcode := List.find?_some hfind
      exact ⟨eq_of_beq hcode, rfl⟩
    · exact Parser.Spells.fail _
  · rintro x tok ⟨value, xs, ys, rfl, hvalue, rfl, rfl⟩
    rw [List.append_nil]
    exact hvalue

theorem fill_spells (len : Nat) :
    (fill len).Spells (fun bytes tok => tok = bytes ∧ bytes.length = len) := by
  intro c bytes c' hc hrun
  unfold fill at hrun
  split at hrun
  · rename_i hfit
    have htake : (c.buffer.take (c.pos + len)).drop c.pos = c.rest.take len := by
      rw [List.drop_take, Nat.add_sub_cancel_left]
      rfl
    rw [slice_of_le (Nat.le_add_right _ _) hfit, ok_bind, htake] at hrun
    cases hrun
    refine ⟨len, rfl, hfit, rfl, ?_⟩
    rw [List.length_take, Cursor.length_rest]
    omega
  · cases hrun

theorem finishedParse_spells (hashLen : Nat) : (Finished.parse hashLen).Spells
    (fun f tok => tok = f.verify ∧ f.verify.length = hashLen ∧ f.hash = none) := by
  have hbind := ((fill_spells hashLen).mapError ProtocolError.parse).bind
    (f := fun verify => (pure { verify := verify, hash := none } : Decode Finished))
    (fun verify => Parser.Spells.succeed _)
  refine hbind.mono ?_
  rintro f tok ⟨verify, xs, ys, rfl, ⟨rfl, hlen⟩, rfl, rfl⟩
  exact ⟨List.append_nil _, hlen, rfl⟩

theorem parseBody_spells (t : HandshakeType) : (ServerHandshake.parseBody suite t).Spells
    (fun h tok => forall f, h = .finished f ->
      t = .finished ∧ tok = f.verify ∧ f.verify.length = suite.hashLen ∧ f.hash = none) := by
  have hother {alpha : Type} {p : Decode alpha} {n : Nat} {Q : alpha -> Prop}
      {g : alpha -> ServerHandshake} (hp : p.Safe n Q)
      (hg : forall a f, g a ≠ .finished f) :
      (g <$> p).Spells (fun h tok => forall f, h = .finished f ->
        t = .finished ∧ tok = f.verify ∧ f.verify.length = suite.hashLen ∧ f.hash = none) := by
    have hbind := (Parser.Spells.of_safe hp).bind
      (f := fun a => (pure (g a) : Decode ServerHandshake))
      (fun a => Parser.Spells.succeed (g a))
    refine Parser.Spells.mono hbind ?_
    rintro h tok ⟨a, xs, ys, _, _, rfl, _⟩ f hf
    exact absurd hf (hg a f)
  cases t with
  | serverHello => exact hother serverHello_safe (fun _ _ => nofun)
  | newSessionTicket => exact hother newSessionTicket_safe (fun _ _ => nofun)
  | encryptedExtensions => exact hother encryptedExtensions_safe (fun _ _ => nofun)
  | certificate => exact hother certificate_safe (fun _ _ => nofun)
  | certificateRequest => exact hother certificateRequest_safe (fun _ _ => nofun)
  | certificateVerify => exact hother certificateVerify_safe (fun _ _ => nofun)
  | finished =>
      have hbind := (finishedParse_spells suite.hashLen).bind
        (f := fun f => (pure (.finished f) : Decode ServerHandshake))
        (fun f => Parser.Spells.succeed (ServerHandshake.finished f))
      refine Parser.Spells.mono hbind ?_
      rintro h tok ⟨f, xs, ys, rfl, ⟨rfl, hlen, hhash⟩, rfl, rfl⟩ f' hf
      cases hf
      exact ⟨rfl, List.append_nil _, hlen, hhash⟩
  | clientHello => exact Parser.Spells.fail _
  | endOfEarlyData => exact Parser.Spells.fail _
  | keyUpdate => exact Parser.Spells.fail _
  | messageHash => exact Parser.Spells.fail _

theorem parse_spells : (ServerHandshake.parse suite).Spells
    (fun h tok => forall f, h = .finished f ->
      exists len, tok = finishedBytes len f.verify ∧ len.length = 3 ∧
        f.verify.length = suite.hashLen ∧ f.hash = none) := by
  have htype := (parseCode_spells readU8_spells HandshakeType.all HandshakeType.toByte).mapError
    (fun _ => ProtocolError.invalidHandshake)
  have hlen := (readNumber_spells 3).mapError (fun _ => ProtocolError.invalidHandshake)
  have hbind := htype.bind (fun t => hlen.bind (fun _ => @parseBody_spells suite t))
  refine Parser.Spells.mono hbind ?_
  rintro h tok ⟨t, xs, ys, rfl, rfl, _, len, body, rfl, hlen, hbody⟩ f hf
  rcases hbody f hf with ⟨rfl, rfl, hverify, hhash⟩
  exact ⟨len, rfl, hlen, hverify, hhash⟩

theorem IsMessage.finished {f : Finished} {bytes : List UInt8}
    (h : IsMessage suite (.finished f) bytes) :
    exists len, bytes = finishedBytes len f.verify ∧ len.length = 3 ∧
      f.verify.length = suite.hashLen ∧ f.hash = none := by
  rcases h with ⟨buf, hbuf, hstarts, hrun⟩
  rcases parse_spells buf _ _ hbuf hrun with ⟨k, hadvance, _, hspells⟩
  have hk : bytes.length = k := by
    have hpos := congrArg Cursor.pos hadvance
    rw [Cursor.advance_pos, Cursor.advance_pos] at hpos
    omega
  have htake := List.prefix_iff_eq_take.mp hstarts
  rw [← hk, ← htake] at hspells
  exact hspells f rfl

/-! ## A record as it is decoded -/

inductive Decoded (suite : TlsCipherSuite) (header : RecordHeader) (start : Nat)
    (data : List UInt8) (transcript : Transcript) :
    Except ProtocolError ServerRecord × Transcript -> Prop where
  | refused (e : ProtocolError)
      (hother : ContentType.of (header.header.getD 0 0) ≠ some .applicationData) :
      Decoded suite header start data transcript (.error e, transcript)
  | changeCipherSpec (htype : ContentType.of (header.header.getD 0 0) = some .changeCipherSpec) :
      Decoded suite header start data transcript (.ok .changeCipherSpec, transcript)
  | alert (a : Alert)
      (hother : ContentType.of (header.header.getD 0 0) ≠ some .applicationData) :
      Decoded suite header start data transcript (.ok (.alert a), transcript)
  | handshake (h : ServerHandshake) (bytes : List UInt8) (hmessage : IsMessage suite h bytes)
      (hother : ContentType.of (header.header.getD 0 0) ≠ some .applicationData) :
      Decoded suite header start data transcript
        (.ok (.handshake (h.withHash suite transcript)), transcript ++ bytes)
  | applicationData
      (htype : ContentType.of (header.header.getD 0 0) = some .applicationData) :
      Decoded suite header start data transcript
        (.ok (.applicationData { header := header, start := start, data := data }), transcript)

theorem decode_cases {header : RecordHeader} {data : List UInt8}
    (hlen : header.contentLength = data.length)
    (htype : ContentType.of (header.header.getD 0 0) ≠ none) (start : Nat)
    (transcript : Transcript) :
    exists result, ServerRecord.decode suite header start data transcript = .ok result ∧
      Decoded suite header start data transcript result := by
  unfold ServerRecord.decode
  rw [if_neg (by rw [hlen]; exact not_not_intro rfl)]
  cases hof : ContentType.of (header.header.getD 0 0) with
  | none => exact absurd hof htype
  | some contentType =>
      have hother (hne : contentType ≠ .applicationData) :
          ContentType.of (header.header.getD 0 0) ≠ some .applicationData := by
        rw [hof]
        exact fun heq => hne (Option.some.inj heq)
      cases contentType with
      | invalid => exact ⟨_, rfl, .refused _ (hother (by decide))⟩
      | changeCipherSpec => exact ⟨_, rfl, .changeCipherSpec hof⟩
      | applicationData => exact ⟨_, rfl, .applicationData hof⟩
      | alert =>
          rcases alert_safe (Cursor.start data) (Cursor.start_valid data) with
            ⟨r, k, hrun, _, _⟩
          simp only [ServerRecord.parseAll, hrun, ok_bind, pure_eq_ok]
          cases r with
          | ok a => exact ⟨_, rfl, .alert a (hother (by decide))⟩
          | error e => exact ⟨_, rfl, .refused e (hother (by decide))⟩
      | handshake =>
          rcases ServerHandshake.parse_safe suite (Cursor.start data) (Cursor.start_valid data)
            with ⟨r, k, hrun, hk, _⟩
          cases r with
          | error e =>
              simp only [ServerRecord.parseAll, ServerHandshake.read_of_failure suite _ hrun,
                ok_bind, pure_eq_ok]
              exact ⟨_, rfl, .refused e (hother (by decide))⟩
          | ok h =>
              simp only [ServerRecord.parseAll, ServerHandshake.read_of_parse suite _ hrun hk,
                ok_bind, pure_eq_ok]
              exact ⟨_, rfl, .handshake h _
                (isMessage_of_parse (Cursor.start_valid data) hk hrun) (hother (by decide))⟩

/-! ## What a callback keeps -/

section Keeping

variable {sigma : Type} {cb : Callback sigma} {P : ReadKeySchedule × sigma -> Prop}

def Keeps (suite : TlsCipherSuite) (cb : Callback sigma) (P : ReadKeySchedule × sigma -> Prop) :
    Prop :=
  forall (h : ServerHandshake) (bytes : List UInt8) (keys : ReadKeySchedule) (s : sigma),
    IsMessage suite h bytes -> P (keys, s) ->
      exists r state, cb (.handshake (h.withHash suite keys.transcript))
          ({ keys with transcript := keys.transcript ++ bytes }, s) = .ok (r, state) ∧
        (r = .ok () -> P state)

theorem handshakeLoop_keeps (hcb : Keeps suite cb P) (fuel : Nat) {buf : ParseBuffer}
    (hbuf : buf.Valid) (hfuel : buf.buffer.length - buf.pos < fuel)
    {state : ReadKeySchedule × sigma} (h : P state) :
    exists r state', handshakeLoop suite cb fuel buf state = .ok (r, state') ∧
      (r = .ok () -> P state') := by
  induction fuel generalizing buf state with
  | zero => exact absurd hfuel (Nat.not_lt_zero _)
  | succ fuel ih =>
      rcases state with ⟨keys, s⟩
      unfold handshakeLoop
      rw [sub_of_le hbuf, ok_bind]
      by_cases hmore : buf.buffer.length - buf.pos > 0
      · rw [if_pos hmore]
        rcases ServerHandshake.parse_safe suite buf hbuf with ⟨r, k, hrun, hk, hr⟩
        cases r with
        | error e =>
            rw [ServerHandshake.read_of_failure suite _ hrun]
            exact ⟨_, _, rfl, fun heq => by cases heq⟩
        | ok message =>
            have hlong := (hr message rfl).1
            rw [ServerHandshake.read_of_parse suite _ hrun hk, ok_bind]
            rcases hcb message _ keys s (isMessage_of_parse hbuf hk hrun) h with
              ⟨r, state', hcall, hkept⟩
            simp only [hcall, ok_bind]
            cases r with
            | error e => exact ⟨_, _, rfl, fun heq => by cases heq⟩
            | ok _ =>
                have hvalid : (buf.advance k).Valid := hk
                refine ih hvalid ?_ (hkept rfl)
                simp only [Cursor.advance_buffer, Cursor.advance_pos]
                omega
      · rw [if_neg hmore]
        exact ⟨_, _, rfl, fun _ => h⟩

def KeepsOther (cb : Callback sigma) (P : ReadKeySchedule × sigma -> Prop) : Prop :=
  forall (record : ServerRecord) (state : ReadKeySchedule × sigma),
    (forall h, record ≠ .handshake h) -> P state ->
      exists r state', cb record state = .ok (r, state') ∧ (r = .ok () -> P state')

theorem handleContent_keeps (hcb : Keeps suite cb P) (hother : KeepsOther cb P)
    (header : RecordHeader) (start : Nat) (content : List UInt8) (contentType : ContentType)
    {state : ReadKeySchedule × sigma} (h : P state) :
    exists r state', handleContent suite cb header start content contentType state =
      .ok (r, state') ∧ (r = .ok () -> P state') := by
  cases contentType with
  | invalid => exact ⟨_, _, rfl, fun heq => by cases heq⟩
  | changeCipherSpec => exact ⟨_, _, rfl, fun heq => by cases heq⟩
  | applicationData => exact hother _ state (fun _ heq => by cases heq) h
  | handshake =>
      refine handshakeLoop_keeps hcb _ (Cursor.start_valid content) ?_ h
      exact Nat.lt_succ_of_le (Nat.sub_le _ _)
  | alert =>
      rcases alert_safe (Cursor.start content) (Cursor.start_valid content) with
        ⟨r, k, hrun, _, _⟩
      unfold handleContent
      simp only [ServerRecord.parseAll, hrun, ok_bind, pure_eq_ok]
      cases r with
      | error e => exact ⟨_, _, rfl, fun heq => by cases heq⟩
      | ok a => exact hother _ state (fun _ heq => by cases heq) h

theorem stripPadding_eq_nil {plain : List UInt8} (h : stripPadding plain = []) : plain = [] := by
  rcases plain_cases plain with ⟨n, hzeros⟩ | ⟨content, b, n, hb, hplain⟩
  · rw [hzeros, stripPadding_zeros] at h
    rw [hzeros, h]
  · rw [hplain, stripPadding_append content n hb] at h
    exact absurd h (List.append_ne_nil_of_right_ne_nil _ (List.cons_ne_nil _ _))

theorem handlePlain_keeps (hcb : Keeps suite cb P) (hother : KeepsOther cb P)
    (header : RecordHeader) (start : Nat) (plain : List UInt8)
    {state : ReadKeySchedule × sigma} (h : P state) :
    (exists r state', handlePlain suite cb header start plain state = .ok (r, state') ∧
      plain ≠ [] ∧
      (r = .ok () -> exists before, P before ∧ state' = (before.1.counted, before.2))) ∨
    (handlePlain suite cb header start plain state = .error .unwrapNone ∧
      (plain = [] ∨ exists before, P before ∧
        UInt64.size ≤ before.1.state.counter + 1)) := by
  unfold handlePlain
  simp only
  cases hsplit : (stripPadding plain).getLast? with
  | none =>
      right
      exact ⟨rfl, Or.inl (stripPadding_eq_nil (List.getLast?_eq_none_iff.mp hsplit))⟩
  | some last =>
      have hsome : plain ≠ [] := by
        rintro rfl
        cases hsplit
      simp only
      cases htype : ContentType.of last with
      | none =>
          left
          exact ⟨_, _, rfl, hsome, nofun⟩
      | some contentType =>
          rcases handleContent_keeps hcb hother header start
            ((stripPadding plain).take ((stripPadding plain).length - 1)) contentType h with
            ⟨r, before, hrun, hkept⟩
          simp only [hrun, ok_bind]
          cases r with
          | error e =>
              left
              exact ⟨_, _, rfl, hsome, nofun⟩
          | ok _ =>
              rcases incrementCounter_cases before.1.state with ⟨hnext, _⟩ | ⟨hnext, hfull⟩
              · left
                simp only [hnext, ok_bind]
                exact ⟨_, _, rfl, hsome, fun _ => ⟨before, hkept rfl, rfl⟩⟩
              · right
                simp only [hnext, error_bind]
                exact ⟨True.intro, Or.inr ⟨before, hkept rfl, hfull⟩⟩

theorem decryptRecord_keeps (hcb : Keeps suite cb P) (hother : KeepsOther cb P)
    (d : ApplicationData) {state : ReadKeySchedule × sigma} (h : P state) :
    (exists r plain state', decryptRecord suite cb (.applicationData d) state =
        .ok (r, plain, state') ∧ plain.length ≤ d.data.length ∧
      suite.decrypt state.1.state.key state.1.state.nonce d.header.header d.data ≠ some [] ∧
      (r = .ok () -> exists before, P before ∧ state' = (before.1.counted, before.2))) ∨
    (decryptRecord suite cb (.applicationData d) state = .error .unwrapNone ∧
      (suite.decrypt state.1.state.key state.1.state.nonce d.header.header d.data = some [] ∨
        exists before, P before ∧ UInt64.size ≤ before.1.state.counter + 1)) := by
  unfold decryptRecord
  simp only
  cases hopens : suite.decrypt state.1.state.key state.1.state.nonce d.header.header d.data with
  | none =>
      left
      exact ⟨_, _, _, rfl, Nat.zero_le _, nofun, nofun⟩
  | some plain =>
      have hfit : plain.length ≤ d.data.length := by
        rw [suite.length_decrypt _ _ _ _ _ hopens]
        exact Nat.le_add_right _ _
      simp only
      rcases handlePlain_keeps hcb hother d.header d.start plain h with
        ⟨r, state', hrun, hsome, hkept⟩ | ⟨hrun, hwhy⟩
      · left
        rw [hrun, ok_bind]
        exact ⟨_, _, _, rfl, hfit, fun heq => hsome (Option.some.inj heq), hkept⟩
      · right
        rw [hrun, error_bind]
        rcases hwhy with rfl | hfull
        · exact ⟨rfl, Or.inl rfl⟩
        · exact ⟨rfl, Or.inr hfull⟩

end Keeping

end Messages
end EmbeddedTls
end TWA
