import TWA.Foundation.Json

/-!
# Server messages

Server frames are read by a small tolerant scanner for flat JSON objects.  It
works on indices into the payload; every index, slice and subtraction is checked,
and a loop that makes no progress runs out of fuel.
-/

namespace TWA

open Foundation
open Foundation.Exec

namespace VoiceClient

inductive ServerEvent where
  | serverReady
  | sessionReady
  | vadSpeaking (speaking : Bool)
  | asrResult (text : Text)
  | assistantDelta (text : Text)
  | audioStart (sampleRate : Option UInt32)
  | audioChunk (data : Text)
  | audioDone
  | assistantCompleted (text : Text)
  | assistantError (message : Text)
  | interruptAck
  | sessionClosed
  | audioFile (path : Text)
  | error (message : Text)
  | unknown
  deriving DecidableEq, Repr

/-!
## Tokens
-/

def skipWs (payload : List UInt8) (i : Nat) : Exec (Option Nat) := do
  let i <- advanceWhile Json.isWs payload i
  pure (if i < payload.length then some i else none)

/-- The loop of `scanString` at `j`, for a string that opens at `i`. -/
def stringLoop (payload : List UInt8) (i : Nat) :
    Nat -> Nat -> Exec (Option (List UInt8 × Nat))
  | 0, _ => .error .diverges
  | fuel + 1, j =>
      if j < payload.length then do
        let b <- index payload j
        if b = Json.backslash then
          stringLoop payload i fuel (j + 2)
        else if b = Json.quote then do
          let body <- slice payload (i + 1) j
          pure (some (body, j + 1))
        else
          stringLoop payload i fuel (j + 1)
      else
        pure none

def scanString (payload : List UInt8) (i : Nat) :
    Exec (Option (List UInt8 × Nat)) :=
  if payload[i]? = some Json.quote then
    stringLoop payload i (payload.length - (i + 1) + 1) (i + 1)
  else
    pure none

/-- The loop of `scanNested` at `j`; only one kind of bracket is counted. -/
def nestedLoop (payload : List UInt8) (opening closing : UInt8) :
    Nat -> Nat -> Nat -> Exec (Option Nat)
  | 0, _, _ => .error .diverges
  | fuel + 1, depth, j =>
      if j < payload.length then do
        let c <- index payload j
        if c = Json.quote then
          attempt (scanString payload j) fun (_, stop) => do
            let j <- sub stop 1
            nestedLoop payload opening closing fuel depth (j + 1)
        else if c = opening then
          nestedLoop payload opening closing fuel (depth + 1) (j + 1)
        else if c = closing then do
          let depth <- sub depth 1
          if depth = 0 then
            pure (some (j + 1))
          else
            nestedLoop payload opening closing fuel depth (j + 1)
        else
          nestedLoop payload opening closing fuel depth (j + 1)
      else
        pure none

def closingOf (opening : UInt8) : UInt8 :=
  if opening = Json.openBrace then Json.closeBrace else Json.closeBracket

def scanNested (payload : List UInt8) (i : Nat) : Exec (Option Nat) := do
  let opening <- index payload i
  nestedLoop payload opening (closingOf opening) (payload.length - i + 1) 0 i

def scanWord (word : String) (payload : List UInt8) (i : Nat) :
    Exec (Option Nat) := do
  let rest <- slice payload i payload.length
  pure (if (Json.bytes word).isPrefixOf rest then some (i + (Json.bytes word).length)
    else none)

def isNumberByte (b : UInt8) : Bool :=
  Json.isDigit b || b == 0x2D || b == 0x2B || b == 0x2E || b == 0x65 || b == 0x45

def scanValue (payload : List UInt8) (i : Nat) : Exec (Option Nat) :=
  match payload[i]? with
  | none => pure none
  | some b =>
      if b = Json.quote then
        attempt (scanString payload i) fun (_, stop) => pure (some stop)
      else if b = Json.openBrace ∨ b = Json.openBracket then
        scanNested payload i
      else if b = 0x74 then
        scanWord "true" payload i
      else if b = 0x66 then
        scanWord "false" payload i
      else if b = 0x6E then
        scanWord "null" payload i
      else do
        let j <- advanceWhile isNumberByte payload i
        pure (if j > i then some j else none)

/-!
## Entries
-/

/-- One round of `for_each_entry` up to its callback: key, value and the position
behind the value. -/
def readEntry (payload : List UInt8) (i : Nat) :
    Exec (Option (List UInt8 × List UInt8 × Nat)) :=
  attempt (skipWs payload i) fun j => do
    let b <- index payload j
    if b = Json.closeBrace then
      pure none
    else if b ≠ Json.quote then
      pure none
    else
      attempt (scanString payload j) fun (key, stop) =>
        attempt (skipWs payload stop) fun k => do
          let b <- index payload k
          if b ≠ Json.colon then
            pure none
          else
            attempt (skipWs payload (k + 1)) fun v0 =>
              attempt (scanValue payload v0) fun vend => do
                let value <- slice payload v0 vend
                pure (some (key, value, vend))

section Entries

variable {state : Type} (payload : List UInt8)
  (f : List UInt8 -> List UInt8 -> state -> Bool × state)

def entryLoop : Nat -> Nat -> state -> Exec state
  | 0, _, _ => .error .diverges
  | fuel + 1, i, s => do
      match <- readEntry payload i with
      | none => pure s
      | some (key, value, vend) =>
          let (more, s) := f key value s
          if !more then
            pure s
          else
            match <- skipWs payload vend with
            | none => pure s
            | some k => do
                let b <- index payload k
                if b = Json.comma then entryLoop fuel (k + 1) s else pure s

/-- Walk over the entries of a flat object; the callback may stop the walk. -/
def forEachEntry (s : state) : Exec state := do
  match <- skipWs payload 0 with
  | none => pure s
  | some i => do
      let b <- index payload i
      if b = Json.openBrace then
        entryLoop payload f (payload.length - (i + 1) + 1) (i + 1) s
      else
        pure s

end Entries

def jsonRaw (payload key : List UInt8) : Exec (Option (List UInt8)) :=
  forEachEntry payload
    (fun k v found => if k = key then (false, some v) else (true, found)) none

/-!
## Escapes
-/

def checkU16 (n : Nat) : Exec Nat :=
  if n < 65536 then .ok n else .error .arithmeticOverflow

def hexLoop (s : List UInt8) (i : Nat) : List Nat -> Nat -> Exec (Option Nat)
  | [], v => pure (some v)
  | n :: ns, v => do
      let b <- index s (i + n)
      match Json.hexValue b with
      | none => pure none
      | some d => do
          let v <- checkU16 (v * 16)
          let v <- checkU16 (v + d)
          hexLoop s i ns v

/-- Four hexadecimal digits; the position moves only past a complete number. -/
def parseU16Hex (s : List UInt8) (i : Nat) : Exec (Option Nat × Nat) :=
  if i + 4 > s.length then
    pure (none, i)
  else do
    match <- hexLoop s i [0, 1, 2, 3] 0 with
    | none => pure (none, i)
    | some v => pure (some v, i + 4)

def charFromU32 (n : Nat) : Option Char :=
  if n < 0xD800 ∨ (0xDFFF < n ∧ n < 0x110000) then some (Char.ofNat n) else none

def keepValid (out : Text) (bytes : List UInt8) (good : Nat) : Exec Text :=
  if good > 0 then do
    let valid <- slice bytes 0 good
    match Utf8.fromUtf8 valid with
    | .ok s => pure (out ++ s)
    | .error _ => pure out
  else
    pure out

def badLength (bytes : List UInt8) (e : Utf8.Error) : Exec Nat := do
  let rest <- sub bytes.length e.validUpTo
  pure (e.errorLen.getD rest)

/-- The loop of `appendUtf8Lossy`: valid text is kept and bad bytes are skipped. -/
def lossyLoop : Nat -> Text -> List UInt8 -> Exec Text
  | 0, _, _ => .error .diverges
  | fuel + 1, out, bytes =>
      if bytes = [] then
        pure out
      else
        match Utf8.fromUtf8 bytes with
        | .ok s => pure (out ++ s)
        | .error e => do
            let out <- keepValid out bytes e.validUpTo
            let skip <- badLength bytes e
            let rest <- slice bytes (e.validUpTo + skip) bytes.length
            lossyLoop fuel out rest

def appendUtf8Lossy (out : Text) (bytes : List UInt8) : Exec Text :=
  lossyLoop (bytes.length + 1) out bytes

def unescapeOne (s : List UInt8) (c : UInt8) (i : Nat) (out : Text) :
    Exec (Nat × Text) :=
  match Json.shortEscape c with
  | some ch => pure (i, out ++ [ch])
  | none =>
      if c = 0x75 then do
        let (cp, i) <- parseU16Hex s i
        match cp with
        | none => pure (i, out)
        | some cp =>
            if 0xD800 ≤ cp ∧ cp < 0xE000 then
              pure (i, out ++ [Char.ofNat 0xFFFD])
            else
              match charFromU32 cp with
              | some ch => pure (i, out ++ [ch])
              | none => pure (i, out)
      else
        pure (i, out)

/-- One round of the loop of `unescape`.  A last unpaired backslash takes the first
branch, where the inner loop does not move. -/
def unescapeRound (s : List UInt8) (i : Nat) (out : Text) : Exec (Nat × Text) := do
  let b <- index s i
  if b ≠ Json.backslash ∨ i + 1 ≥ s.length then do
    let stop <- advanceWhile (· != Json.backslash) s i
    let run <- slice s i stop
    let out <- appendUtf8Lossy out run
    pure (stop, out)
  else do
    let c <- index s (i + 1)
    unescapeOne s c (i + 2) out

def unescapeLoop (s : List UInt8) : Nat -> Nat -> Text -> Exec Text
  | 0, _, _ => .error .diverges
  | fuel + 1, i, out =>
      if i < s.length then do
        let (i, out) <- unescapeRound s i out
        unescapeLoop s fuel i out
      else
        pure out

theorem unescapeLoop_round {s : List UInt8} {i i' : Nat} {out out' : Text}
    (hi : i < s.length) (h : unescapeRound s i out = .ok (i', out')) (fuel : Nat) :
    unescapeLoop s (fuel + 1) i out = unescapeLoop s fuel i' out' := by
  rw [unescapeLoop, if_pos hi, h]
  rfl

def unescape (s : List UInt8) : Exec Text :=
  unescapeLoop s (s.length + 1) 0 []

/-!
## Fields
-/

def jsonString (payload key : List UInt8) : Exec (Option Text) :=
  attempt (jsonRaw payload key) fun raw =>
    if raw.head? ≠ some Json.quote then
      pure none
    else do
      let stop <- sub raw.length 1
      let body <- slice raw 1 stop
      let text <- unescape body
      pure (some text)

def jsonU32 (payload key : List UInt8) : Exec (Option UInt32) :=
  attempt (jsonRaw payload key) fun raw =>
    match Utf8.fromUtf8 raw with
    | .error _ => pure none
    | .ok s => pure (Text.parseU32 (Text.trim s))

def jsonBool (payload key : List UInt8) : Exec (Option Bool) :=
  attempt (jsonRaw payload key) fun raw =>
    pure (if raw = Json.bytes "true" then some true
      else if raw = Json.bytes "false" then some false
      else none)

def textField (payload : List UInt8) (key : String) : Exec Text := do
  let text <- jsonString payload (Json.bytes key)
  pure (text.getD [])

def eventOfType (payload : List UInt8) (ty : Text) : Exec ServerEvent :=
  if ty = Text.lit "server.ready" then
    pure .serverReady
  else if ty = Text.lit "session.ready" then
    pure .sessionReady
  else if ty = Text.lit "vad.speaking" then do
    let speaking <- jsonBool payload (Json.bytes "speaking")
    pure (.vadSpeaking (speaking.getD false))
  else if ty = Text.lit "asr.result" then
    ServerEvent.asrResult <$> textField payload "text"
  else if ty = Text.lit "assistant.delta" then
    ServerEvent.assistantDelta <$> textField payload "text"
  else if ty = Text.lit "audio.start" then
    ServerEvent.audioStart <$> jsonU32 payload (Json.bytes "sample_rate")
  else if ty = Text.lit "audio.chunk" then
    ServerEvent.audioChunk <$> textField payload "data"
  else if ty = Text.lit "audio.done" then
    pure .audioDone
  else if ty = Text.lit "assistant.completed" then
    ServerEvent.assistantCompleted <$> textField payload "text"
  else if ty = Text.lit "assistant.error" then
    ServerEvent.assistantError <$> textField payload "message"
  else if ty = Text.lit "interrupt.ack" then
    pure .interruptAck
  else if ty = Text.lit "session.closed" then
    pure .sessionClosed
  else if ty = Text.lit "audio.file" then
    ServerEvent.audioFile <$> textField payload "path"
  else if ty = Text.lit "error" ∨ ty = Text.lit "asr.error" then do
    match <- jsonString payload (Json.bytes "message") with
    | some message => pure (.error message)
    | none => ServerEvent.error <$> textField payload "error"
  else
    pure .unknown

/-- A frame that cannot be read is `unknown`. -/
def parseServerMessage (payload : List UInt8) : Exec ServerEvent := do
  match <- jsonString payload (Json.bytes "type") with
  | none => pure .unknown
  | some ty => eventOfType payload ty

end VoiceClient
end TWA
