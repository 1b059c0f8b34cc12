import TWA.Foundation.Exec

/-!
# Audio payloads

Audio chunks carry their PCM bytes as base64 text.  Bytes outside the alphabet are
skipped, wherever they stand.
-/

namespace TWA
namespace VoiceClient

def base64Value (c : UInt8) : Option UInt32 :=
  if 0x41 ≤ c && c ≤ 0x5A then some (c - 0x41).toUInt32
  else if 0x61 ≤ c && c ≤ 0x7A then some (c - 0x61 + 26).toUInt32
  else if 0x30 ≤ c && c ≤ 0x39 then some (c - 0x30 + 52).toUInt32
  else if c = 0x2B then some 62
  else if c = 0x2F then some 63
  else none

def isPadding (c : UInt8) : Bool :=
  c == 0x3D || c == 0x0D || c == 0x0A || c == 0x20

def decodeLoop : List UInt8 -> UInt32 -> UInt32 -> List UInt8 -> List UInt8
  | [], _, _, out => out
  | c :: rest, acc, bits, out =>
      if isPadding c then
        decodeLoop rest acc bits out
      else
        match base64Value c with
        | none => decodeLoop rest acc bits out
        | some v =>
            let acc := acc <<< 6 ||| v
            let bits := bits + 6
            if bits ≥ 8 then
              decodeLoop rest acc (bits - 8) (out ++ [(acc >>> (bits - 8)).toUInt8])
            else
              decodeLoop rest acc bits out

/-- The decoded bytes are appended to `out`. -/
def decodeBase64 (input out : List UInt8) : List UInt8 :=
  decodeLoop input 0 0 out

end VoiceClient
end TWA
