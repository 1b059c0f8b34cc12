import TWA.VoiceClient.Messages

/-!
# Messages to the server

The device writes its messages by hand.  Whatever a text contains, what is written
is a rendering of the object that is meant, so the scanner reads it back.
-/

namespace TWA

open Foundation
open Foundation.Exec

namespace VoiceClient

def hexDigit (d : Nat) : Char :=
  if d < 10 then Char.ofNat (0x30 + d) else Char.ofNat (0x61 + (d - 10))

def hex4 (n : Nat) : Text :=
  [hexDigit (n / 4096 % 16), hexDigit (n / 256 % 16), hexDigit (n / 16 % 16),
    hexDigit (n % 16)]

def escapeChar (c : Char) : Text :=
  if c = '"' then ['\\', '"']
  else if c = '\\' then ['\\', '\\']
  else if c = '\n' then ['\\', 'n']
  else if c = '\r' then ['\\', 'r']
  else if c = '\t' then ['\\', 't']
  else if c.toNat < 0x20 then ['\\', 'u'] ++ hex4 c.toNat
  else [c]

def appendJsonString (out s : Text) : Text :=
  out ++ '"' :: s.flatMap escapeChar ++ ['"']

def buildClientStats (llmFirstTokenToAudioMs : UInt32) : Text :=
  Text.lit "\x7b\"type\":\"client_stats\",\"llm_first_token_to_audio_ms\":" ++
    Text.lit (toString llmFirstTokenToAudioMs.toNat) ++ Text.lit "\x7d"

def buildTtsRequest (text : Text) (sampleRate : UInt32) : Text :=
  let out := Text.lit "\x7b\"text\":"
  let out := appendJsonString out text
  out ++ Text.lit ",\"sample_rate\":" ++ Text.lit (toString sampleRate.toNat) ++
    Text.lit "\x7d"

/-!
## Strings
-/

theorem hexDigit_value {d : Nat} (h : d < 16) :
    exists b, Utf8.encode [hexDigit d] = [b] ∧ Json.hexValue b = some d := by
  have hall : forall i : Fin 16,
      Utf8.encode [hexDigit i] = [UInt8.ofNat (hexDigit i).toNat] ∧
        Json.hexValue (UInt8.ofNat (hexDigit i).toNat) = some i.val := by
    decide
  exact ⟨_, hall ⟨d, h⟩⟩

theorem hex4_hex {n : Nat} (h : n < 65536) : Json.Hex (Utf8.encode (hex4 n)) n := by
  rcases hexDigit_value (d := n / 4096 % 16) (by omega) with ⟨b0, hb0, h0⟩
  rcases hexDigit_value (d := n / 256 % 16) (by omega) with ⟨b1, hb1, h1⟩
  rcases hexDigit_value (d := n / 16 % 16) (by omega) with ⟨b2, hb2, h2⟩
  rcases hexDigit_value (d := n % 16) (by omega) with ⟨b3, hb3, h3⟩
  have hbytes : Utf8.encode (hex4 n) = [b0, b1, b2, b3] := by
    have happend : hex4 n = [hexDigit (n / 4096 % 16)] ++ [hexDigit (n / 256 % 16)] ++
        [hexDigit (n / 16 % 16)] ++ [hexDigit (n % 16)] := rfl
    rw [happend, Utf8.encode_append, Utf8.encode_append, Utf8.encode_append, hb0, hb1, hb2,
      hb3]
    rfl
  have hvalue : ((n / 4096 % 16 * 16 + n / 256 % 16) * 16 + n / 16 % 16) * 16 + n % 16 =
      n := by omega
  rw [hbytes]
  have hhex := Json.Hex.mk h0 h1 h2 h3
  rw [hvalue] at hhex
  exact hhex

theorem body_escape (t : Text) : Json.Body t (Utf8.encode (t.flatMap escapeChar)) := by
  induction t with
  | nil => exact Json.Body.nil
  | cons c t ih =>
      rw [List.flatMap_cons, Utf8.encode_append]
      unfold escapeChar
      split_ifs with hquote hback hnewline hreturn htab hcontrol
      · rw [hquote]
        exact Json.Body.short (b := 0x22) rfl ih
      · rw [hback]
        exact Json.Body.short (b := 0x5C) rfl ih
      · rw [hnewline]
        exact Json.Body.short (b := 0x6E) rfl ih
      · rw [hreturn]
        exact Json.Body.short (b := 0x72) rfl ih
      · rw [htab]
        exact Json.Body.short (b := 0x74) rfl ih
      · rw [Utf8.encode_append]
        exact Json.Body.unicode (hex4_hex (by omega)) ih
      · have hraw : Json.Raw c := ⟨by omega, hquote, hback⟩
        rw [Utf8.encode_cons, Utf8.encode_nil, List.append_nil]
        exact Json.Body.raw hraw ih

theorem encode_appendJsonString (out t : Text) :
    Utf8.encode (appendJsonString out t) =
      Utf8.encode out ++ quoted (Utf8.encode (t.flatMap escapeChar)) := by
  have hquote : Utf8.encode ['"'] = [Json.quote] := by decide
  unfold appendJsonString quoted
  have hsplit : out ++ '"' :: t.flatMap escapeChar ++ ['"'] =
      out ++ (['"'] ++ t.flatMap escapeChar ++ ['"']) := by simp
  rw [hsplit, Utf8.encode_append, Utf8.encode_append, Utf8.encode_append, hquote]
  rfl

/-!
## Messages
-/

theorem entry_bare (key : String) {j : Json} {value : List UInt8}
    (hkey : (Text.lit key).all (fun c => decide (Json.Raw c)) = true)
    (hvalue : Json.Value j value) :
    Entry (Text.lit key) j (quoted (Json.bytes key) ++ Json.colon :: value) := by
  have hws : Json.Ws [] := rfl
  have hraw (c : Char) (hc : c ∈ Text.lit key) : Json.Raw c :=
    of_decide_eq_true (List.all_eq_true.mp hkey c hc)
  have h := Entry.mk hws hraw hws hws hvalue
  simpa [Json.bytes] using h

theorem message_pair {k1 k2 : Text} {j1 j2 : Json} {entry1 entry2 : List UInt8}
    (h1 : Entry k1 j1 entry1) (h2 : Entry k2 j2 entry2) :
    Message [(k1, j1), (k2, j2)]
      (Json.openBrace :: entry1 ++ Json.comma :: entry2 ++ [Json.closeBrace]) := by
  have hws : Json.Ws [] := rfl
  have hboth := Entries.more h1 hws (by simp) (Entries.last h2 hws)
  have h := Message.mk hws hboth hws
  simpa using h

theorem buildTtsRequest_message (text : Text) (sampleRate : UInt32) :
    Message [(Text.lit "text", .str text),
        (Text.lit "sample_rate", .num (Json.decimalBytes sampleRate.toNat))]
      (Utf8.encode (buildTtsRequest text sampleRate)) := by
  have htext := entry_bare "text" (by decide) (Json.Value.str (body_escape text))
  have hrate := entry_bare "sample_rate" (by decide)
    (Json.Value.num (Json.number_decimal sampleRate.toNat))
  have hpair := message_pair htext hrate
  have hopen : Utf8.encode (Text.lit "\x7b\"text\":") =
      Json.openBrace :: quoted (Json.bytes "text") ++ [Json.colon] := by decide +kernel
  have hmiddle : Utf8.encode (Text.lit ",\"sample_rate\":") =
      Json.comma :: quoted (Json.bytes "sample_rate") ++ [Json.colon] := by decide +kernel
  have hclose : Utf8.encode (Text.lit "\x7d") = [Json.closeBrace] := by decide
  have hout : Utf8.encode (buildTtsRequest text sampleRate) =
      Json.openBrace ::
          (quoted (Json.bytes "text") ++ Json.colon :: quoted (Utf8.encode
            (text.flatMap escapeChar))) ++
        Json.comma :: (quoted (Json.bytes "sample_rate") ++
          Json.colon :: Json.decimalBytes sampleRate.toNat) ++ [Json.closeBrace] := by
    unfold buildTtsRequest
    simp only [Utf8.encode_append, encode_appendJsonString, hopen, hmiddle, hclose,
      Json.decimalBytes]
    simp
  rw [hout]
  exact hpair

theorem buildClientStats_message (ms : UInt32) :
    Message [(Text.lit "type", .str (Text.lit "client_stats")),
        (Text.lit "llm_first_token_to_audio_ms", .num (Json.decimalBytes ms.toNat))]
      (Utf8.encode (buildClientStats ms)) := by
  have htype := entry_bare "type" (by decide)
    (Json.Value.str (body_escape (Text.lit "client_stats")))
  have hms := entry_bare "llm_first_token_to_audio_ms" (by decide)
    (Json.Value.num (Json.number_decimal ms.toNat))
  have hpair := message_pair htype hms
  have hfront : Utf8.encode
      (Text.lit "\x7b\"type\":\"client_stats\",\"llm_first_token_to_audio_ms\":") =
      Json.openBrace :: (quoted (Json.bytes "type") ++ Json.colon :: quoted (Utf8.encode
          ((Text.lit "client_stats").flatMap escapeChar))) ++
        Json.comma :: (quoted (Json.bytes "llm_first_token_to_audio_ms") ++
          [Json.colon]) := by decide +kernel
  have hclose : Utf8.encode (Text.lit "\x7d") = [Json.closeBrace] := by decide
  have hout : Utf8.encode (buildClientStats ms) =
      Json.openBrace :: (quoted (Json.bytes "type") ++ Json.colon :: quoted (Utf8.encode
          ((Text.lit "client_stats").flatMap escapeChar))) ++
        Json.comma :: (quoted (Json.bytes "llm_first_token_to_audio_ms") ++
          Json.colon :: Json.decimalBytes ms.toNat) ++ [Json.closeBrace] := by
    unfold buildClientStats
    simp only [Utf8.encode_append, hfront, hclose, Json.decimalBytes]
    simp
  rw [hout]
  exact hpair

/-- What is built reads back: the text and the rate of a request, and the latency of a
report. -/
theorem built_messages_read_back (text : Text) (sampleRate ms : UInt32) :
    jsonString (Utf8.encode (buildTtsRequest text sampleRate)) (Json.bytes "text") =
        .ok (some text) ∧
      jsonU32 (Utf8.encode (buildTtsRequest text sampleRate)) (Json.bytes "sample_rate") =
        .ok (some sampleRate) ∧
      jsonU32 (Utf8.encode (buildClientStats ms))
          (Json.bytes "llm_first_token_to_audio_ms") = .ok (some ms) := by
  have hrequest := buildTtsRequest_message text sampleRate
  have hstats := buildClientStats_message ms
  refine ⟨?_, ?_, ?_⟩
  · rw [jsonString_message hrequest]
    rfl
  · rw [jsonU32_message hrequest]
    have hmember : member [(Text.lit "text", .str text),
        (Text.lit "sample_rate", .num (Json.decimalBytes sampleRate.toNat))]
          "sample_rate" = some (.num (Json.decimalBytes sampleRate.toNat)) := rfl
    rw [u32Member, hmember, Option.bind_some, Json.asU32_decimal]
  · rw [jsonU32_message hstats]
    have hmember : member [(Text.lit "type", .str (Text.lit "client_stats")),
        (Text.lit "llm_first_token_to_audio_ms", .num (Json.decimalBytes ms.toNat))]
          "llm_first_token_to_audio_ms" = some (.num (Json.decimalBytes ms.toNat)) := rfl
    rw [u32Member, hmember, Option.bind_some, Json.asU32_decimal]

end VoiceClient
end TWA
