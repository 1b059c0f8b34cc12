import TWA.VoiceClient.Base64
import Mathlib.Algebra.GroupWithZero.Nat
import Mathlib.Data.List.Basic

/-!
# Base64 and back

The standard encoding turns three bytes into four characters of six bits each, and
a tail of one or two bytes into two or three characters.  The decoder keeps
what it has not written yet in the low bits of its accumulator; what overflows at
the top is never looked at again.
-/

namespace TWA
namespace VoiceClient

def base64Alphabet : List UInt8 :=
  (List.range' 0x41 26 ++ List.range' 0x61 26 ++ List.range' 0x30 10 ++
    [0x2B, 0x2F]).map UInt8.ofNat

/-- The six-bit groups of a byte string; the last one is filled up with zeros. -/
def sextets : List UInt8 -> List Nat
  | [] => []
  | [a] => [a.toNat / 4, a.toNat % 4 * 16]
  | [a, b] => [a.toNat / 4, a.toNat % 4 * 16 + b.toNat / 16, b.toNat % 16 * 4]
  | a :: b :: c :: rest =>
      [a.toNat / 4, a.toNat % 4 * 16 + b.toNat / 16, b.toNat % 16 * 4 + c.toNat / 64,
        c.toNat % 64] ++ sextets rest

def base64Char (n : Nat) : UInt8 :=
  base64Alphabet.getD n 0

def base64Padding (b : List UInt8) : List UInt8 :=
  match b.length % 3 with
  | 1 => [0x3D, 0x3D]
  | 2 => [0x3D]
  | _ => []

def encodeBase64 (padded : Bool) (b : List UInt8) : List UInt8 :=
  (sextets b).map base64Char ++ if padded then base64Padding b else []

/-- `Noisy text input`: bytes outside the alphabet have been inserted into the text. -/
inductive Noisy : List UInt8 -> List UInt8 -> Prop where
  | nil : Noisy [] []
  | char (c : UInt8) {text input : List UInt8} (h : Noisy text input) :
      Noisy (c :: text) (c :: input)
  | noise (c : UInt8) {text input : List UInt8} (hc : c ∉ base64Alphabet)
      (h : Noisy text input) : Noisy text (c :: input)

/-! ## The alphabet -/

theorem base64Value_eq_none_iff (c : UInt8) :
    base64Value c = none <-> c ∉ base64Alphabet := by
  have hvalue : forall a, a ∈ base64Alphabet -> base64Value a ≠ none := by
    decide +kernel
  have hall : forall i : Fin 256,
      base64Value (UInt8.ofNat i) = none ∨ UInt8.ofNat i ∈ base64Alphabet := by
    decide +kernel
  have hc := hall ⟨c.toNat, c.toNat_lt⟩
  rw [UInt8.ofNat_toNat] at hc
  constructor
  · intro hnone hmem
    exact hvalue c hmem hnone
  · intro hnot
    exact hc.resolve_right hnot

theorem base64Value_char {n : Nat} (h : n < 64) :
    base64Value (base64Char n) = some (UInt32.ofNat n) := by
  have hall : forall i : Fin 64, base64Value (base64Char i) = some (UInt32.ofNat i) := by
    decide
  exact hall ⟨n, h⟩

/-! ## One character -/

section Decoding

variable {input rest : List UInt8} {acc bits : UInt32} {out : List UInt8}

theorem decodeLoop_noise {c : UInt8} (hc : c ∉ base64Alphabet) :
    decodeLoop (c :: rest) acc bits out = decodeLoop rest acc bits out := by
  rw [decodeLoop, (base64Value_eq_none_iff c).mpr hc]
  simp

def pushSextet (acc : UInt32) (n : Nat) : UInt32 :=
  acc <<< 6 ||| UInt32.ofNat n

/-- A group goes to the low six bits; the top six bits are lost. -/
theorem toNat_pushSextet (acc : UInt32) {n : Nat} (h : n < 64) :
    (pushSextet acc n).toNat = acc.toNat * 64 % 2 ^ 32 + n := by
  have hsix : (6 : UInt32).toNat % 32 = 6 := rfl
  have hsmall : n % 2 ^ 32 = n := Nat.mod_eq_of_lt (by omega)
  have hshift : acc.toNat <<< 6 % 2 ^ 32 = (acc.toNat % 2 ^ 26) <<< 6 := by
    rw [Nat.shiftLeft_eq, Nat.shiftLeft_eq]
    omega
  have hor : (acc.toNat % 2 ^ 26) <<< 6 ||| n = (acc.toNat % 2 ^ 26) <<< 6 + n :=
    (Nat.shiftLeft_add_eq_or_of_lt (by omega) _).symm
  unfold pushSextet
  rw [UInt32.toNat_or, UInt32.toNat_shiftLeft, hsix, hshift, UInt32.toNat_ofNat', hsmall,
    hor, Nat.shiftLeft_eq]
  omega

theorem pushSextet_mod (acc : UInt32) {n : Nat} (h : n < 64) :
    (pushSextet acc n).toNat % 64 = n := by
  rw [toNat_pushSextet acc h]
  omega

theorem base64Char_not_padding {n : Nat} (h : n < 64) : isPadding (base64Char n) = false := by
  have hall : forall i : Fin 64, isPadding (base64Char i) = false := by decide
  exact hall ⟨n, h⟩

theorem decodeLoop_waits {n : Nat} (h : n < 64) (hbits : ¬ bits + 6 ≥ 8) :
    decodeLoop (base64Char n :: rest) acc bits out =
      decodeLoop rest (pushSextet acc n) (bits + 6) out := by
  rw [decodeLoop, base64Char_not_padding h, base64Value_char h]
  exact if_neg hbits

theorem decodeLoop_writes {n : Nat} {k : UInt32} {a : UInt8} (h : n < 64)
    (hbits : bits + 6 ≥ 8) (hk : bits + 6 - 8 = k) (hlt : k.toNat < 32)
    (ha : (pushSextet acc n).toNat / 2 ^ k.toNat % 256 = a.toNat) :
    decodeLoop (base64Char n :: rest) acc bits out =
      decodeLoop rest (pushSextet acc n) k (out ++ [a]) := by
  have hbyte : (pushSextet acc n >>> k).toUInt8 = a := by
    apply UInt8.toNat_inj.mp
    rw [UInt32.toNat_toUInt8, UInt32.toNat_shiftRight, Nat.mod_eq_of_lt hlt,
      Nat.shiftRight_eq_div_pow]
    exact ha
  rw [decodeLoop, base64Char_not_padding h, base64Value_char h, ← hbyte, ← hk]
  exact if_pos hbits

theorem decodeLoop_noisy {text : List UInt8} (h : Noisy text input)
    (acc bits : UInt32) (out : List UInt8) :
    decodeLoop input acc bits out = decodeLoop text acc bits out := by
  induction h generalizing acc bits out with
  | nil => rfl
  | char c _ ih =>
      rw [decodeLoop, decodeLoop]
      split
      · exact ih acc bits out
      · split
        · exact ih acc bits out
        · simp only [ih]
  | noise c hc _ ih =>
      rw [decodeLoop_noise hc]
      exact ih acc bits out

theorem decodeLoop_padding {padding : List UInt8}
    (h : forall c, c ∈ padding -> c ∉ base64Alphabet) :
    decodeLoop padding acc bits out = out := by
  induction padding with
  | nil => rfl
  | cons c padding ih =>
      rw [decodeLoop_noise (h c List.mem_cons_self)]
      exact ih fun d hd => h d (List.mem_cons_of_mem _ hd)

/-! ## Groups

At the start of a group nothing is pending, and the first two, three or four
characters bring one, two or three bytes.
-/

theorem decodeLoop_first (a : UInt8) (n : Nat) (hn : n < 16) :
    decodeLoop (base64Char (a.toNat / 4) :: base64Char (a.toNat % 4 * 16 + n) :: rest)
        acc 0 out =
      decodeLoop rest (pushSextet (pushSextet acc (a.toNat / 4)) (a.toNat % 4 * 16 + n)) 4
        (out ++ [a]) := by
  have ha := a.toNat_lt
  have hlow := pushSextet_mod acc (n := a.toNat / 4) (by omega)
  have hpush := toNat_pushSextet (pushSextet acc (a.toNat / 4))
    (n := a.toNat % 4 * 16 + n) (by omega)
  have hfour : (4 : UInt32).toNat = 4 := rfl
  rw [decodeLoop_waits (by omega) (by decide)]
  apply decodeLoop_writes (by omega) (by decide) (by decide) (by decide)
  rw [hfour, hpush]
  omega

theorem decodeLoop_second (b : UInt8) (n : Nat) (hn : n < 4)
    (hlow : acc.toNat % 16 = b.toNat / 16) :
    decodeLoop (base64Char (b.toNat % 16 * 4 + n) :: rest) acc 4 out =
      decodeLoop rest (pushSextet acc (b.toNat % 16 * 4 + n)) 2 (out ++ [b]) := by
  have hb := b.toNat_lt
  have hpush := toNat_pushSextet acc (n := b.toNat % 16 * 4 + n) (by omega)
  have htwo : (2 : UInt32).toNat = 2 := rfl
  apply decodeLoop_writes (by omega) (by decide) (by decide) (by decide)
  rw [htwo, hpush]
  omega

theorem decodeLoop_third (c : UInt8) (hlow : acc.toNat % 4 = c.toNat / 64) :
    decodeLoop (base64Char (c.toNat % 64) :: rest) acc 2 out =
      decodeLoop rest (pushSextet acc (c.toNat % 64)) 0 (out ++ [c]) := by
  have hc := c.toNat_lt
  have hpush := toNat_pushSextet acc (n := c.toNat % 64) (by omega)
  have hzero : (0 : UInt32).toNat = 0 := rfl
  apply decodeLoop_writes (by omega) (by decide) (by decide) (by decide)
  rw [hzero, hpush]
  omega

/-- Whatever an earlier group has left in the accumulator, the groups of `b` bring `b`. -/
theorem decodeLoop_sextets (b : List UInt8) {tail : List UInt8}
    (htail : forall c, c ∈ tail -> c ∉ base64Alphabet) (acc : UInt32) (out : List UInt8) :
    decodeLoop ((sextets b).map base64Char ++ tail) acc 0 out = out ++ b := by
  induction b using sextets.induct generalizing acc out with
  | case1 =>
      rw [List.append_nil]
      exact decodeLoop_padding htail
  | case2 a =>
      change decodeLoop (base64Char _ :: base64Char (a.toNat % 4 * 16 + 0) :: tail)
        acc 0 out = _
      exact (decodeLoop_first a 0 (by decide)).trans (decodeLoop_padding htail)
  | case3 a b =>
      have ha := a.toNat_lt
      have hb := b.toNat_lt
      have hlow := pushSextet_mod (pushSextet acc (a.toNat / 4))
        (n := a.toNat % 4 * 16 + b.toNat / 16) (by omega)
      have hout : out ++ [a, b] = out ++ [a] ++ [b] := by simp
      rw [hout]
      change decodeLoop (base64Char _ :: base64Char _ ::
        base64Char (b.toNat % 16 * 4 + 0) :: tail) acc 0 out = _
      exact (decodeLoop_first a _ (by omega)).trans
        ((decodeLoop_second b 0 (by decide) (by omega)).trans (decodeLoop_padding htail))
  | case4 a b c rest ih =>
      have ha := a.toNat_lt
      have hb := b.toNat_lt
      have hc := c.toNat_lt
      have hlow := pushSextet_mod (pushSextet acc (a.toNat / 4))
        (n := a.toNat % 4 * 16 + b.toNat / 16) (by omega)
      have hlow2 := pushSextet_mod
        (pushSextet (pushSextet acc (a.toNat / 4)) (a.toNat % 4 * 16 + b.toNat / 16))
        (n := b.toNat % 16 * 4 + c.toNat / 64) (by omega)
      have hout : out ++ a :: b :: c :: rest = out ++ [a] ++ [b] ++ [c] ++ rest := by simp
      rw [hout, ← ih]
      exact (decodeLoop_first a _ (by omega)).trans
        ((decodeLoop_second b _ (by omega) (by omega)).trans
          (decodeLoop_third c (by omega)))

end Decoding

theorem base64Padding_not_mem (b : List UInt8) :
    forall c, c ∈ base64Padding b -> c ∉ base64Alphabet := by
  have hequals : (0x3D : UInt8) ∉ base64Alphabet := by decide
  intro c hc
  unfold base64Padding at hc
  split at hc
  · simp only [List.mem_cons, List.not_mem_nil, or_false, or_self] at hc
    rw [hc]
    exact hequals
  · rw [List.mem_singleton.mp hc]
    exact hequals
  · cases hc

/-- Decoding undoes encoding, with or without padding and through any bytes outside the
alphabet; what `out` held before is kept. -/
theorem decodeBase64_encodeBase64 {padded : Bool} {b input : List UInt8}
    (out : List UInt8) (h : Noisy (encodeBase64 padded b) input) :
    decodeBase64 input out = out ++ b := by
  unfold decodeBase64
  rw [decodeLoop_noisy h]
  apply decodeLoop_sextets
  intro c hc
  cases padded with
  | true => exact base64Padding_not_mem b c hc
  | false => cases hc

/-- `TQ==` broken after the first character. -/
theorem decodeBase64_encodeBase64_broken :
    decodeBase64 [0x54, 0x0A, 0x51, 0x3D, 0x3D] [7] = [7, 0x4D] := by
  have htext : encodeBase64 true [0x4D] = [0x54, 0x51, 0x3D, 0x3D] := by decide
  have hnoisy : Noisy (encodeBase64 true [0x4D]) [0x54, 0x0A, 0x51, 0x3D, 0x3D] := by
    rw [htext]
    exact (((Noisy.nil.char 0x3D).char 0x3D).char 0x51).noise 0x0A (by decide) |>.char 0x54
  exact decodeBase64_encodeBase64 [7] hnoisy

end VoiceClient
end TWA
