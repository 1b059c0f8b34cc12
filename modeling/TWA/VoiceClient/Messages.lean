import TWA.VoiceClient.ScannerRenderings

/-!
# What a message means

A message is a JSON object, written in any way in which its own keys need no
escapes.  Its meaning is the event that its `type` member names, with fields
taken from the first member of each name.  The parser agrees with that meaning on
every rendering of every message.
-/

namespace TWA

open Foundation
open Foundation.Exec

namespace VoiceClient

/-!
## Messages
-/

inductive Entry (k : Text) (j : Json) : List UInt8 -> Prop where
  | mk {ws ws1 ws2 value : List UInt8} (hws : Json.Ws ws)
      (hkey : forall c, c ∈ k -> Json.Raw c) (hws1 : Json.Ws ws1)
      (hws2 : Json.Ws ws2) (hvalue : Json.Value j value) :
      Entry k j (ws ++ quoted (Utf8.encode k) ++ ws1 ++ Json.colon :: ws2 ++ value)

inductive Entries : List (Text × Json) -> List UInt8 -> Prop where
  | empty {ws : List UInt8} (hws : Json.Ws ws) : Entries [] ws
  | last {k : Text} {j : Json} {entry ws : List UInt8} (hentry : Entry k j entry)
      (hws : Json.Ws ws) : Entries [(k, j)] (entry ++ ws)
  | more {k : Text} {j : Json} {ms : List (Text × Json)}
      {entry ws entries : List UInt8} (hentry : Entry k j entry) (hws : Json.Ws ws)
      (hne : ms ≠ []) (hrest : Entries ms entries) :
      Entries ((k, j) :: ms) (entry ++ ws ++ Json.comma :: entries)

inductive Message (ms : List (Text × Json)) : List UInt8 -> Prop where
  | mk {ws entries ws' : List UInt8} (hws : Json.Ws ws) (h : Entries ms entries)
      (hws' : Json.Ws ws') :
      Message ms (ws ++ Json.openBrace :: entries ++ Json.closeBrace :: ws')

section Meaning

variable (ms : List (Text × Json)) (key : String)

def member : Option Json :=
  ms.lookup (Text.lit key)

def stringMember : Option Text :=
  (member ms key).bind Json.asText

def boolMember : Option Bool :=
  (member ms key).bind Json.asBool

def u32Member : Option UInt32 :=
  (member ms key).bind Json.asU32

def textMember : Text :=
  (stringMember ms key).getD []

end Meaning

def eventNamed (ms : List (Text × Json)) (ty : Text) : ServerEvent :=
  if ty = Text.lit "server.ready" then .serverReady
  else if ty = Text.lit "session.ready" then .sessionReady
  else if ty = Text.lit "vad.speaking" then
    .vadSpeaking ((boolMember ms "speaking").getD false)
  else if ty = Text.lit "asr.result" then .asrResult (textMember ms "text")
  else if ty = Text.lit "assistant.delta" then .assistantDelta (textMember ms "text")
  else if ty = Text.lit "audio.start" then .audioStart (u32Member ms "sample_rate")
  else if ty = Text.lit "audio.chunk" then .audioChunk (textMember ms "data")
  else if ty = Text.lit "audio.done" then .audioDone
  else if ty = Text.lit "assistant.completed" then
    .assistantCompleted (textMember ms "text")
  else if ty = Text.lit "assistant.error" then
    .assistantError (textMember ms "message")
  else if ty = Text.lit "interrupt.ack" then .interruptAck
  else if ty = Text.lit "session.closed" then .sessionClosed
  else if ty = Text.lit "audio.file" then .audioFile (textMember ms "path")
  else if ty = Text.lit "error" ∨ ty = Text.lit "asr.error" then
    .error ((stringMember ms "message").getD (textMember ms "error"))
  else .unknown

def eventOf (ms : List (Text × Json)) : ServerEvent :=
  match stringMember ms "type" with
  | none => .unknown
  | some ty => eventNamed ms ty

/-!
## Entries
-/

section Reading

variable {payload rest : List UInt8} {i : Nat}

theorem readEntry_entry {k : Text} {j : Json} {entry : List UInt8}
    (hentry : Entry k j entry) (hrest : Follows rest)
    (h : Remains payload i (entry ++ rest)) :
    exists value, Json.Value j value ∧ readEntry payload i =
      .ok (some (Utf8.encode k, value, i + entry.length)) := by
  cases hentry with
  | @mk ws ws1 ws2 value hws hkey hws1 hws2 hvalue =>
      refine ⟨value, hvalue, ?_⟩
      rcases hvalue.head with ⟨b, value', hb, hstart⟩
      -- the positions before the key, behind it, at the colon and at the value
      have h0 : Remains payload i (ws ++ Json.quote ::
          (Utf8.encode k ++ [Json.quote] ++ (ws1 ++ Json.colon ::
            (ws2 ++ (value ++ rest))))) := by
        simpa [quoted] using h
      have hkey0 : Remains payload (i + ws.length) (quoted (Utf8.encode k) ++
          (ws1 ++ Json.colon :: (ws2 ++ (value ++ rest)))) := h0.skip
      have h1 := hkey0.skip
      have h2 := h1.skip
      have h3 := h2.next
      rw [hb, List.cons_append] at h3
      have h4 := h2.next.skip
      unfold readEntry
      rw [attempt_some (skipWs_remains hws (by decide) h0), h0.skip.index, ok_bind,
        if_neg (by decide), if_neg (by decide),
        attempt_some (scanString_quoted (Json.Raw.encode_enclosed hkey) hkey0)]
      simp only
      rw [attempt_some (skipWs_remains hws1 (by decide) h1), h2.index, ok_bind,
        if_neg (by decide), attempt_some (skipWs_remains hws2 hstart.not_ws h3),
        attempt_some (scanValue_value hvalue hrest h4), h4.slice, ok_bind]
      simp only [pure_eq_ok, List.length_append, List.length_cons]
      congr 4
      omega

theorem readEntry_close {ws : List UInt8} (hws : Json.Ws ws)
    (h : Remains payload i (ws ++ Json.closeBrace :: rest)) :
    readEntry payload i = .ok none := by
  unfold readEntry
  rw [attempt_some (skipWs_remains hws (by decide) h), h.skip.index, ok_bind,
    if_pos rfl]
  rfl

theorem follows_ws {ws : List UInt8} {b : UInt8} (hws : Json.Ws ws)
    (hb : isNumberByte b = false) : Follows (ws ++ b :: rest) := by
  intro x hx
  cases ws with
  | nil =>
      cases hx
      exact hb
  | cons w ws =>
      cases hx
      have hw : Json.isWs x = true := List.all_eq_true.mp hws x List.mem_cons_self
      simp only [Json.isWs, Bool.or_eq_true, beq_iff_eq] at hw
      rcases hw with ((rfl | rfl) | rfl) | rfl <;> decide

def findKey (key k v : List UInt8) (found : Option (List UInt8)) :
    Bool × Option (List UInt8) :=
  if k = key then (false, some v) else (true, found)

theorem jsonRaw_eq (payload key : List UInt8) :
    jsonRaw payload key = forEachEntry payload (findKey key) none := rfl

theorem entryLoop_entries (key : Text) {ms : List (Text × Json)}
    {entries : List UInt8} (hentries : Entries ms entries) {fuel : Nat}
    (hfuel : entries.length < fuel)
    (h : Remains payload i (entries ++ Json.closeBrace :: rest)) :
    exists found, entryLoop payload (findKey (Utf8.encode key)) fuel i none =
      .ok found ∧ Option.Rel Json.Value (ms.lookup key) found := by
  induction hentries generalizing i fuel with
  | empty hws =>
      cases fuel with
      | zero => cases hfuel
      | succ fuel =>
          refine ⟨none, ?_, Option.Rel.none⟩
          rw [entryLoop, readEntry_close hws h]
          rfl
  | @last k j entry ws hentry hws =>
      cases fuel with
      | zero => cases hfuel
      | succ fuel =>
          rw [List.append_assoc] at h
          rcases readEntry_entry hentry (follows_ws hws (by decide)) h with
            ⟨value, hvalue, hread⟩
          rw [entryLoop, hread, ok_bind, List.lookup_cons]
          by_cases hk : key = k
          · refine ⟨some value, ?_, ?_⟩
            · simp [findKey, hk]
            · simpa [hk] using Option.Rel.some hvalue
          · have hne : ¬ Utf8.encode k = Utf8.encode key :=
              fun hcontra => hk (Utf8.encode_injective hcontra).symm
            refine ⟨none, ?_, ?_⟩
            · simp only [findKey, if_neg hne, Bool.not_true, Bool.false_eq_true,
                if_false]
              rw [skipWs_remains hws (by decide) h.skip, ok_bind]
              simp only
              rw [h.skip.skip.index, ok_bind, if_neg (by decide)]
              rfl
            · rw [beq_false_of_ne hk]
              exact Option.Rel.none
  | @more k j ms entry ws entries hentry hws hne hrest ih =>
      cases fuel with
      | zero => cases hfuel
      | succ fuel =>
          rw [List.append_assoc, List.append_assoc, List.cons_append] at h
          rcases readEntry_entry hentry (follows_ws hws (by decide)) h with
            ⟨value, hvalue, hread⟩
          rw [entryLoop, hread, ok_bind, List.lookup_cons]
          by_cases hk : key = k
          · refine ⟨some value, ?_, ?_⟩
            · simp [findKey, hk]
            · simpa [hk] using Option.Rel.some hvalue
          · have hne : ¬ Utf8.encode k = Utf8.encode key :=
              fun hcontra => hk (Utf8.encode_injective hcontra).symm
            simp only [findKey, if_neg hne, Bool.not_true, Bool.false_eq_true,
              if_false]
            rw [skipWs_remains hws (by decide) h.skip, ok_bind]
            simp only
            rw [h.skip.skip.index, ok_bind, if_pos rfl, beq_false_of_ne hk]
            apply ih _ h.skip.skip.next
            simp only [List.length_append, List.length_cons] at hfuel
            omega

theorem jsonRaw_message {ms : List (Text × Json)} (hmessage : Message ms payload)
    (key : String) :
    exists found, jsonRaw payload (Json.bytes key) = .ok found ∧
      Option.Rel Json.Value (member ms key) found := by
  have hstart := Remains.start payload
  rw [jsonRaw_eq, forEachEntry]
  cases hmessage with
  | @mk ws entries ws' hws hentries hws' =>
      generalize hall : ws ++ Json.openBrace :: entries ++ Json.closeBrace :: ws' =
        payload at hstart
      have hform : ws ++ Json.openBrace :: (entries ++ Json.closeBrace :: ws') =
          payload := by
        rw [← hall, List.append_assoc, List.cons_append]
      have h0 : Remains payload 0
          (ws ++ Json.openBrace :: (entries ++ Json.closeBrace :: ws')) := by
        rw [hform]
        exact hstart
      have hlen := h0.skip.next.length_eq
      rw [List.length_append] at hlen
      rw [skipWs_remains hws (by decide) h0, ok_bind]
      simp only
      rw [h0.skip.index, ok_bind, if_pos rfl]
      exact entryLoop_entries (Text.lit key) hentries (by omega) h0.skip.next

end Reading

/-!
## Strings
-/

section Strings

variable {s rest : List UInt8} {i : Nat}

theorem appendUtf8Lossy_encode (out t : Text) :
    appendUtf8Lossy out (Utf8.encode t) = .ok (out ++ t) := by
  unfold appendUtf8Lossy
  rw [lossyLoop]
  split
  · rename_i hempty
    have ht : t = [] := Utf8.encode_injective (by rw [hempty]; rfl)
    rw [ht, List.append_nil]
    rfl
  · rw [Utf8.fromUtf8_encode]
    rfl

theorem unescapeRound_run {front : Text} (hne : front ≠ [])
    (hraw : forall c, c ∈ front -> Json.Raw c)
    (hrest : forall b, rest.head? = some b -> b = Json.backslash)
    (h : Remains s i (Utf8.encode front ++ rest)) (out : Text) :
    unescapeRound s i out =
      .ok (i + (Utf8.encode front).length, out ++ front) := by
  have hplain (b : UInt8) (hb : b ∈ Utf8.encode front) :
      (b != Json.backslash) = true := by
    simpa using (Json.Raw.encode_bytes hraw hb).2
  cases hbytes : Utf8.encode front with
  | nil => exact absurd (Utf8.encode_injective (t := []) hbytes) hne
  | cons b bs =>
      have hb : b ≠ Json.backslash := by
        simpa using hplain b (by rw [hbytes]; exact List.mem_cons_self)
      have hat : Remains s i (b :: (bs ++ rest)) := by
        rw [hbytes] at h
        exact h
      unfold unescapeRound
      rw [hat.index, ok_bind, if_pos (Or.inl hb), h.advanceWhile hplain, ok_bind,
        h.slice, ok_bind, appendUtf8Lossy_encode, hbytes]
      · rfl
      · intro x hx
        rw [hrest x hx]
        rfl

theorem unescapeRound_short {b : UInt8} {c : Char} (hb : Json.shortEscape b = some c)
    (h : Remains s i (Json.backslash :: b :: rest)) (out : Text) :
    unescapeRound s i out = .ok (i + 2, out ++ [c]) := by
  have hlt := h.next.lt
  unfold unescapeRound
  rw [h.index, ok_bind, if_neg (by simp; omega), h.next.index, ok_bind,
    unescapeOne, hb]
  rfl

theorem checkU16_of_lt {n : Nat} (h : n < 65536) : checkU16 n = .ok n :=
  if_pos h

theorem parseU16Hex_hex {ds : List UInt8} {v : Nat} (hds : Json.Hex ds v)
    (h : Remains s i (ds ++ rest)) : parseU16Hex s i = .ok (some v, i + 4) := by
  cases hds with
  | @mk b0 b1 b2 b3 v0 v1 v2 v3 h0 h1 h2 h3 =>
      have hat : Remains s i (b0 :: b1 :: b2 :: b3 :: rest) := h
      have hlen := hat.length_eq
      simp only [List.length_cons] at hlen
      have hlt0 := Json.hexValue_lt h0
      have hlt1 := Json.hexValue_lt h1
      have hlt2 := Json.hexValue_lt h2
      have hlt3 := Json.hexValue_lt h3
      have hi1 : index s (i + 1) = .ok b1 := hat.next.index
      have hi2 : index s (i + 2) = .ok b2 := hat.next.next.index
      have hi3 : index s (i + 3) = .ok b3 := hat.next.next.next.index
      unfold parseU16Hex
      rw [if_neg (by omega)]
      simp only [hexLoop, Nat.add_zero, hat.index, hi1, hi2, hi3, ok_bind, h0, h1,
        h2, h3]
      rw [checkU16_of_lt (by omega), ok_bind, checkU16_of_lt (by omega), ok_bind,
        checkU16_of_lt (by omega), ok_bind, checkU16_of_lt (by omega), ok_bind,
        checkU16_of_lt (by omega), ok_bind, checkU16_of_lt (by omega), ok_bind,
        checkU16_of_lt (by omega), ok_bind, checkU16_of_lt (by omega), ok_bind]
      simp

theorem charFromU32_toNat (c : Char) : charFromU32 c.toNat = some c := by
  have hvalid := c.valid
  change c.toNat.isValidChar at hvalid
  unfold Nat.isValidChar at hvalid
  rw [charFromU32, if_pos hvalid, Char.ofNat_toNat]

theorem unescapeRound_unicode {ds : List UInt8} {c : Char}
    (hds : Json.Hex ds c.toNat)
    (h : Remains s i (Json.backslash :: 0x75 :: (ds ++ rest))) (out : Text) :
    unescapeRound s i out = .ok (i + 6, out ++ [c]) := by
  have hlt := h.next.lt
  have hvalid := c.valid
  change c.toNat.isValidChar at hvalid
  unfold Nat.isValidChar at hvalid
  have hhex := parseU16Hex_hex hds h.next.next
  have hnone : Json.shortEscape 0x75 = none := by decide
  unfold unescapeRound
  rw [h.index, ok_bind, if_neg (by simp; omega), h.next.index, ok_bind, unescapeOne,
    hnone]
  simp only [if_true]
  rw [hhex, ok_bind]
  simp only
  rw [if_neg (by omega), charFromU32_toNat]
  rfl

theorem unescapeLoop_body {t : Text} {bs : List UInt8} (hbody : Json.Body t bs)
    {fuel : Nat} (hfuel : bs.length < fuel) (h : Remains s i bs) (out : Text) :
    unescapeLoop s fuel i out = .ok (out ++ t) := by
  induction fuel generalizing i t bs out with
  | zero => cases hfuel
  | succ fuel ih =>
      rcases hbody.run with ⟨front, rest, bs', rfl, rfl, hraw, hrest, hhead⟩
      by_cases hfront : front = []
      · subst hfront
        -- no run: the end, or an escape
        cases hrest with
        | nil =>
            have hlen := h.length_eq
            simp only [Utf8.encode_nil, List.append_nil, List.length_nil] at hlen
            rw [unescapeLoop, if_neg (by omega)]
            simp
        | @raw c t bs hc hrest =>
            rcases Utf8.encodeChar_eq_cons c with ⟨b, bytes, hb⟩
            have hback := hhead b (by rw [hb]; rfl)
            exact absurd hback (hc.bytes (by rw [hb]; exact List.mem_cons_self)).2
        | @short c b t bs hb hrest =>
            have hat : Remains s i (Json.backslash :: b :: bs) := h
            rw [unescapeLoop_round hat.lt (unescapeRound_short hb hat out),
              ih hrest _ hat.next.next, List.append_assoc]
            · rfl
            · simp only [Utf8.encode_nil, List.nil_append, List.length_cons] at hfuel
              omega
        | @unicode c ds t bs hds hrest =>
            have hat : Remains s i (Json.backslash :: 0x75 :: (ds ++ bs)) := h
            have hskip := hat.next.next.skip
            rw [hds.length_eq] at hskip
            rw [unescapeLoop_round hat.lt (unescapeRound_unicode hds hat out),
              ih hrest _ hskip, List.append_assoc]
            · rfl
            · simp only [Utf8.encode_nil, List.nil_append, List.length_cons,
                List.length_append, List.cons_append] at hfuel
              omega
      · have hpos : 0 < (Utf8.encode front).length := by
          rw [List.length_pos_iff]
          intro hnil
          exact hfront (Utf8.encode_injective (t := []) hnil)
        rw [List.length_append] at hfuel
        have hlen := h.length_eq
        rw [List.length_append] at hlen
        rw [unescapeLoop_round (by omega) (unescapeRound_run hfront hraw hhead h out),
          ih hrest (by omega) h.skip, List.append_assoc]

theorem unescape_body {t : Text} {bs : List UInt8} (hbody : Json.Body t bs) :
    unescape bs = .ok t :=
  unescapeLoop_body hbody (Nat.lt_succ_self _) (Remains.start bs) []

end Strings

/-!
## Fields
-/

section Fields

variable {payload : List UInt8} {ms : List (Text × Json)}

theorem jsonString_message (hmessage : Message ms payload) (key : String) :
    jsonString payload (Json.bytes key) = .ok (stringMember ms key) := by
  rcases jsonRaw_message hmessage key with ⟨found, hraw, hrel⟩
  unfold jsonString stringMember
  generalize member ms key = j at hrel ⊢
  cases hrel with
  | none => exact attempt_none hraw _
  | @some j raw hvalue =>
      rw [attempt_some hraw, Option.bind_some]
      rcases hvalue.head with ⟨b, rest, hb, hstart⟩
      by_cases hquote : b = Json.quote
      · cases hvalue with
        | @str t bs hbody =>
            have hslice : slice (Json.quote :: bs ++ [Json.quote]) 1
                ((Json.quote :: bs ++ [Json.quote]).length - 1) = .ok bs := by
              rw [slice_of_le (by simp) (Nat.sub_le _ _)]
              simp
            rw [if_neg (by simp), sub_of_le (by simp), ok_bind, hslice, ok_bind,
              unescape_body hbody]
            rfl
        | _ =>
            rw [hquote] at hstart
            exact absurd hstart (by simp [Json.StartsWith]; decide)
      · rw [if_pos, hstart.asText_eq_none hquote]
        · rfl
        · rw [hb]
          intro hcontra
          exact hquote (Option.some.inj hcontra)

theorem textField_message (hmessage : Message ms payload) (key : String) :
    textField payload key = .ok (textMember ms key) := by
  unfold textField
  rw [jsonString_message hmessage]
  rfl

theorem jsonBool_message (hmessage : Message ms payload) (key : String) :
    jsonBool payload (Json.bytes key) = .ok (boolMember ms key) := by
  rcases jsonRaw_message hmessage key with ⟨found, hraw, hrel⟩
  unfold jsonBool boolMember
  generalize member ms key = j at hrel ⊢
  cases hrel with
  | none => exact attempt_none hraw _
  | @some j raw hvalue =>
      rw [attempt_some hraw, Option.bind_some]
      rcases hvalue.head with ⟨b, rest, hb, hstart⟩
      rcases hstart.asBool_cases with htrue | hfalse | ⟨hnone, ht, hf⟩
      · cases Json.asBool_eq_some htrue
        cases hvalue
        rfl
      · cases Json.asBool_eq_some hfalse
        cases hvalue
        rfl
      · have hword (c : UInt8) (cs : List UInt8) (hne : b ≠ c) : raw ≠ c :: cs := by
          rw [hb]
          intro hcontra
          injection hcontra with hhead _
          exact hne hhead
        have hnot_true : raw ≠ Json.bytes "true" := hword 0x74 (Json.bytes "rue") ht
        have hnot_false : raw ≠ Json.bytes "false" := hword 0x66 (Json.bytes "alse") hf
        rw [if_neg hnot_true, if_neg hnot_false, hnone]
        rfl

/-- Values of the other kinds are not read as numbers: their first byte is neither
white space nor part of a number. -/
theorem parseU32_other {j : Json} {b : UInt8} {bs : List UInt8} {t : Text}
    (hstart : Json.StartsWith j b) (hb : ¬ (Json.isDigit b = true ∨ b = 0x2D))
    (ht : Utf8.fromUtf8 (b :: bs) = .ok t) : Text.parseU32 (Text.trim t) = none := by
  have hfirst : b.toNat < 128 ∧ Text.isWhitespace (Utf8.char b) = false ∧
      Utf8.char b ≠ '+' ∧ Text.isDigit (Utf8.char b) = false := by
    match j, hstart with
    | .num _, hstart => exact absurd hstart hb
    | .bool .true, hstart => rw [show b = 0x74 from hstart]; decide
    | .bool .false, hstart => rw [show b = 0x66 from hstart]; decide
    | .null, hstart => rw [show b = 0x6E from hstart]; decide
    | .str _, hstart => rw [show b = Json.quote from hstart]; decide
    | .arr _, hstart => rw [show b = Json.openBracket from hstart]; decide
    | .obj _, hstart => rw [show b = Json.openBrace from hstart]; decide
  rcases hfirst with ⟨hascii, hspace, hsign, hdigit⟩
  rcases Utf8.fromUtf8_cons hascii ht with ⟨rest, hrest⟩
  rcases Text.trim_cons rest hspace with ⟨rest', htrim⟩
  rw [hrest, htrim]
  exact Text.parseU32_none rest' hsign hdigit

theorem jsonU32_message (hmessage : Message ms payload) (key : String) :
    jsonU32 payload (Json.bytes key) = .ok (u32Member ms key) := by
  rcases jsonRaw_message hmessage key with ⟨found, hraw, hrel⟩
  unfold jsonU32 u32Member
  generalize member ms key = j at hrel ⊢
  cases hrel with
  | none => exact attempt_none hraw _
  | @some j raw hvalue =>
      rw [attempt_some hraw, Option.bind_some]
      rcases hvalue.head with ⟨b, rest, hb, hstart⟩
      by_cases hnumber : Json.isDigit b = true ∨ b = 0x2D
      · cases hvalue with
        | num h =>
            rw [Utf8.fromUtf8_ascii fun x hx => (h.bytes hx).ascii.1]
            simp only
            rw [h.parseU32_eq]
            rfl
        | _ =>
            rw [show b = _ from hstart] at hnumber
            exact absurd hnumber (by decide)
      · rw [hstart.asU32_eq_none hnumber, hb]
        split
        · rfl
        · rename_i t ht
          rw [parseU32_other hstart hnumber ht]
          rfl

theorem eventOfType_message (hmessage : Message ms payload) (ty : Text) :
    eventOfType payload ty = .ok (eventNamed ms ty) := by
  have hfield (make : Text -> ServerEvent) (key : String) :
      make <$> textField payload key = .ok (make (textMember ms key)) := by
    rw [textField_message hmessage]
    rfl
  unfold eventOfType eventNamed
  refine ite_eq_ok rfl (ite_eq_ok rfl (ite_eq_ok ?speaking
    (ite_eq_ok (hfield _ _) (ite_eq_ok (hfield _ _) (ite_eq_ok ?rate
      (ite_eq_ok (hfield _ _) (ite_eq_ok rfl (ite_eq_ok (hfield _ _)
        (ite_eq_ok (hfield _ _) (ite_eq_ok rfl (ite_eq_ok rfl
          (ite_eq_ok (hfield _ _) (ite_eq_ok ?fallback rfl)))))))))))))
  case speaking =>
    rw [jsonBool_message hmessage]
    rfl
  case rate =>
    rw [jsonU32_message hmessage]
    rfl
  case fallback =>
    rw [jsonString_message hmessage, ok_bind]
    cases stringMember ms "message" with
    | none => exact hfield _ _
    | some message => rfl

end Fields

/-- On every rendering of a message the parser gives the event it stands for. -/
theorem parseServerMessage_message {ms : List (Text × Json)} {payload : List UInt8}
    (hmessage : Message ms payload) :
    parseServerMessage payload = .ok (eventOf ms) := by
  unfold parseServerMessage eventOf
  rw [jsonString_message hmessage, ok_bind]
  cases stringMember ms "type" with
  | none => rfl
  | some ty => exact eventOfType_message hmessage ty

/-- A frame with a bracket in a nested string, white space and an escape. -/
theorem parseServerMessage_message_nested :
    parseServerMessage
        (Json.bytes "\x7b \"x\" : [\"\x7d\"],\"type\":\"error\",\"error\":\"\\n\"\x7d") =
      .ok (.error ['\n']) := by
  have hnil : Json.Ws [] := rfl
  have hspace : Json.Ws [0x20] := rfl
  have hbrace : Json.Value (.str ['\x7d']) (Json.quote :: [0x7D] ++ [Json.quote]) :=
    Json.Value.str (Json.Body.raw (c := '\x7d') (by decide) Json.Body.nil)
  have hname : Json.Value (.str (Text.lit "error"))
      (Json.quote :: Json.bytes "error" ++ [Json.quote]) :=
    Json.Value.str (Json.Body.raw (c := 'e') (by decide)
      (Json.Body.raw (c := 'r') (by decide) (Json.Body.raw (c := 'r') (by decide)
        (Json.Body.raw (c := 'o') (by decide)
          (Json.Body.raw (c := 'r') (by decide) Json.Body.nil)))))
  have hline : Json.Value (.str ['\n'])
      (Json.quote :: [Json.backslash, 0x6E] ++ [Json.quote]) :=
    Json.Value.str (Json.Body.short (by decide) Json.Body.nil)
  have hraw {k : Text} (h : k.all (fun c => decide (Json.Raw c)) = true) :
      forall c, c ∈ k -> Json.Raw c :=
    fun c hc => of_decide_eq_true (List.all_eq_true.mp h c hc)
  have hx : Entry (Text.lit "x") (.arr [.str ['\x7d']]) _ :=
    Entry.mk hspace (hraw (by decide)) hspace hspace
      (Json.Value.arr (Json.Elements.last hnil hbrace hnil))
  have htype : Entry (Text.lit "type") (.str (Text.lit "error")) _ :=
    Entry.mk hnil (hraw (by decide)) hnil hnil hname
  have herror : Entry (Text.lit "error") (.str ['\n']) _ :=
    Entry.mk hnil (hraw (by decide)) hnil hnil hline
  have hentries := Entries.more hx hnil (by simp)
    (Entries.more htype hnil (by simp) (Entries.last herror hnil))
  exact parseServerMessage_message (Message.mk hnil hentries hnil)

end VoiceClient
end TWA
