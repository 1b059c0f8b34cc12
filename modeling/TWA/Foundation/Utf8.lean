import TWA.Foundation.Exec
import TWA.Foundation.Text

/-!
# UTF-8 text as lists of characters

The bytes of a text are the UTF-8 encodings of its characters in order.  Programs
that compute byte offsets into a text may cut it only between characters, and
`splitAt` faults on any other cut.
-/

namespace TWA
namespace Foundation

namespace Utf8

open Exec

def encode (t : Text) : List UInt8 :=
  t.flatMap String.utf8EncodeChar

@[simp] theorem encode_nil : encode [] = [] := rfl

@[simp] theorem encode_cons (c : Char) (t : Text) :
    encode (c :: t) = String.utf8EncodeChar c ++ encode t := rfl

@[simp] theorem encode_append (s t : Text) :
    encode (s ++ t) = encode s ++ encode t :=
  List.flatMap_append

/-!
## Cutting a text at a byte offset
-/

/-- Cut at byte offset `n`, which must lie on a character boundary. -/
def splitAt : Text -> Nat -> Exec (Text × Text)
  | t, 0 => .ok ([], t)
  | [], _ + 1 => .error .indexOutOfRange
  | c :: rest, n + 1 =>
      if c.utf8Size ≤ n + 1 then do
        let (a, b) <- splitAt rest (n + 1 - c.utf8Size)
        pure (c :: a, b)
      else
        .error .splitCharacter

theorem splitAt_zero (t : Text) : splitAt t 0 = .ok ([], t) := by
  cases t <;> rfl

theorem splitAt_encode (s t : Text) :
    splitAt (s ++ t) (encode s).length = .ok (s, t) := by
  induction s with
  | nil => exact splitAt_zero t
  | cons c s ih =>
      have hpos : 0 < c.utf8Size := c.utf8Size_pos
      have hlen :
          (encode (c :: s)).length = (c.utf8Size + (encode s).length - 1) + 1 := by
        rw [encode_cons, List.length_append, String.length_utf8EncodeChar]
        omega
      rw [hlen, List.cons_append, splitAt, if_pos (by omega),
        show c.utf8Size + (encode s).length - 1 + 1 - c.utf8Size =
          (encode s).length by omega, ih]
      rfl

/-!
## ASCII bytes

A byte below `0x80` occurs in an encoding only as the whole encoding of an ASCII
character, so a scan for ASCII bytes stops on character boundaries.
-/

/-- The character predicate that a predicate on ASCII bytes amounts to. -/
def onChar (p : UInt8 -> Bool) (c : Char) : Bool :=
  decide (c.toNat < 128) && p (UInt8.ofNat c.toNat)

theorem encodeChar_of_ascii {c : Char} (h : c.toNat < 128) :
    String.utf8EncodeChar c = [UInt8.ofNat c.toNat] := by
  unfold String.utf8EncodeChar
  exact if_pos (by change c.toNat ≤ 127; omega)

theorem char_toNat_lt (c : Char) : c.toNat < 0x110000 := by
  have h := c.valid
  change c.toNat.isValidChar at h
  unfold Nat.isValidChar at h
  omega

theorem encodeChar_high {c : Char} (h : ¬ c.toNat < 128) {b : UInt8}
    (hb : b ∈ String.utf8EncodeChar c) : 128 ≤ b.toNat := by
  have hc : c.val.toNat < 0x110000 := char_toNat_lt c
  unfold String.utf8EncodeChar at hb
  change ¬ c.val.toNat < 128 at h
  simp only at hb
  split at hb
  · omega
  · split at hb
    · simp only [List.mem_cons, List.not_mem_nil, or_false] at hb
      rcases hb with rfl | rfl <;> simp [UInt8.toNat_ofNat'] <;> omega
    · split at hb
      · simp only [List.mem_cons, List.not_mem_nil, or_false] at hb
        rcases hb with rfl | rfl | rfl <;> simp [UInt8.toNat_ofNat'] <;> omega
      · simp only [List.mem_cons, List.not_mem_nil, or_false] at hb
        rcases hb with rfl | rfl | rfl | rfl <;>
          simp [UInt8.toNat_ofNat'] <;> omega

theorem encodeChar_eq_cons (c : Char) :
    exists b bs, String.utf8EncodeChar c = b :: bs := by
  cases h : String.utf8EncodeChar c with
  | nil => exact absurd h String.utf8EncodeChar_ne_nil
  | cons b bs => exact ⟨b, bs, rfl⟩

/-- A predicate on ASCII bytes sees the first byte of a character as the character. -/
theorem first_byte {p : UInt8 -> Bool}
    (hp : forall b, p b = true -> b.toNat < 128) {c : Char} {b : UInt8}
    {bs : List UInt8} (hb : String.utf8EncodeChar c = b :: bs) :
    p b = onChar p c := by
  by_cases hascii : c.toNat < 128
  · rw [encodeChar_of_ascii hascii] at hb
    injection hb with hhead _
    simp [onChar, hascii, hhead]
  · have hhigh : 128 ≤ b.toNat :=
      encodeChar_high hascii (by rw [hb]; exact List.mem_cons_self)
    have hpb : p b = false := by
      cases hcase : p b with
      | false => rfl
      | true =>
          have hlow := hp b hcase
          omega
    simp [onChar, hascii, hpb]

theorem index_encode_first {p : UInt8 -> Bool}
    (hp : forall b, p b = true -> b.toNat < 128) (s : Text) (c : Char)
    (t : Text) :
    exists b, index (encode (s ++ c :: t)) (encode s).length = .ok b ∧
      p b = onChar p c := by
  rcases encodeChar_eq_cons c with ⟨b, bs, hb⟩
  refine ⟨b, ?_, first_byte hp hb⟩
  apply index_of_getElem?
  rw [encode_append, encode_cons, hb,
    List.getElem?_append_right (Nat.le_refl _), Nat.sub_self]
  rfl

theorem takeWhile_encode {p : UInt8 -> Bool}
    (hp : forall b, p b = true -> b.toNat < 128) (t : Text) :
    (encode t).takeWhile p = encode (t.takeWhile (onChar p)) := by
  induction t with
  | nil => rfl
  | cons c t ih =>
      by_cases hascii : c.toNat < 128
      · rw [encode_cons, encodeChar_of_ascii hascii, List.singleton_append,
          List.takeWhile_cons, List.takeWhile_cons]
        cases hpc : p (UInt8.ofNat c.toNat) with
        | false => simp [onChar, hpc]
        | true => simp [onChar, hpc, hascii, ih, encodeChar_of_ascii]
      · rcases encodeChar_eq_cons c with ⟨b, bs, hb⟩
        rw [encode_cons, hb, List.cons_append, List.takeWhile_cons,
          first_byte hp hb, List.takeWhile_cons]
        simp [onChar, hascii]

/-- Scanning over ASCII bytes from a character boundary ends on one. -/
theorem advanceWhile_encode {p : UInt8 -> Bool}
    (hp : forall b, p b = true -> b.toNat < 128) (s t : Text) :
    advanceWhile p (encode (s ++ t)) (encode s).length =
      .ok (encode (s ++ t.takeWhile (onChar p))).length := by
  rw [advanceWhile_eq p _ (by simp)]
  congr 1
  rw [encode_append, List.drop_left, takeWhile_encode hp, encode_append,
    List.length_append]

/-!
## Decoding

The validation of the standard library: it reads one character after the other
and reports where the first one that is not well formed starts, and how many of
its bytes to skip, or that the input ends inside it.
-/

def isContinuation (b : UInt8) : Bool :=
  0x80 ≤ b && b ≤ 0xBF

/-- The second bytes that may follow the first byte of a three-byte character. -/
def secondOfThree (first second : UInt8) : Bool :=
  (first == 0xE0 && 0xA0 ≤ second && second ≤ 0xBF) ||
    (0xE1 ≤ first && first ≤ 0xEC && 0x80 ≤ second && second ≤ 0xBF) ||
    (first == 0xED && 0x80 ≤ second && second ≤ 0x9F) ||
    (0xEE ≤ first && first ≤ 0xEF && 0x80 ≤ second && second ≤ 0xBF)

def secondOfFour (first second : UInt8) : Bool :=
  (first == 0xF0 && 0x90 ≤ second && second ≤ 0xBF) ||
    (0xF1 ≤ first && first ≤ 0xF3 && 0x80 ≤ second && second ≤ 0xBF) ||
    (first == 0xF4 && 0x80 ≤ second && second ≤ 0x8F)

/-- The first character and its width, or the length of the error: `none` when the
input ends inside the character. -/
def decodeFirst : List UInt8 -> Except (Option Nat) (Char × Nat)
  | [] => .error none
  | first :: rest =>
      if first < 0x80 then
        .ok (Char.ofNat first.toNat, 1)
      else if 0xC2 ≤ first && first ≤ 0xDF then
        match rest with
        | [] => .error none
        | b1 :: _ =>
            if isContinuation b1 then
              .ok (Char.ofNat (first.toNat % 32 * 64 + b1.toNat % 64), 2)
            else
              .error (some 1)
      else if 0xE0 ≤ first && first ≤ 0xEF then
        match rest with
        | [] => .error none
        | b1 :: rest =>
            if !secondOfThree first b1 then
              .error (some 1)
            else
              match rest with
              | [] => .error none
              | b2 :: _ =>
                  if isContinuation b2 then
                    .ok (Char.ofNat (first.toNat % 16 * 4096 +
                      b1.toNat % 64 * 64 + b2.toNat % 64), 3)
                  else
                    .error (some 2)
      else if 0xF0 ≤ first && first ≤ 0xF4 then
        match rest with
        | [] => .error none
        | b1 :: rest =>
            if !secondOfFour first b1 then
              .error (some 1)
            else
              match rest with
              | [] => .error none
              | b2 :: rest =>
                  if !isContinuation b2 then
                    .error (some 2)
                  else
                    match rest with
                    | [] => .error none
                    | b3 :: _ =>
                        if isContinuation b3 then
                          .ok (Char.ofNat (first.toNat % 8 * 262144 +
                            b1.toNat % 64 * 4096 + b2.toNat % 64 * 64 +
                            b3.toNat % 64), 4)
                        else
                          .error (some 3)
      else
        .error (some 1)

/-- The text of the longest valid prefix, its length in bytes, and the error behind
it, if any. -/
def validate : Nat -> List UInt8 -> Text × Nat × Option (Option Nat)
  | 0, _ => ([], 0, none)
  | _ + 1, [] => ([], 0, none)
  | fuel + 1, b :: bs =>
      match decodeFirst (b :: bs) with
      | .ok (c, width) =>
          let (t, n, e) := validate fuel ((b :: bs).drop width)
          (c :: t, width + n, e)
      | .error e => ([], 0, some e)

structure Error where
  validUpTo : Nat
  errorLen : Option Nat
  deriving DecidableEq, Repr

def fromUtf8 (bytes : List UInt8) : Except Error Text :=
  match validate bytes.length bytes with
  | (t, _, none) => .ok t
  | (_, n, some e) => .error { validUpTo := n, errorLen := e }

/-! ### Valid input -/

theorem toNat_byte {n : Nat} (h : n < 256) : (UInt8.ofNat n).toNat = n := by
  rw [UInt8.toNat_ofNat']
  exact Nat.mod_eq_of_lt h

def encodeNumber (n : Nat) : List UInt8 :=
  if n ≤ 0x7f then
    [.ofNat n]
  else if n ≤ 0x7ff then
    [.ofNat (n / 64 % 32 + 192), .ofNat (n % 64 + 128)]
  else if n ≤ 0xffff then
    [.ofNat (n / 4096 % 16 + 224), .ofNat (n / 64 % 64 + 128),
      .ofNat (n % 64 + 128)]
  else
    [.ofNat (n / 262144 % 8 + 240), .ofNat (n / 4096 % 64 + 128),
      .ofNat (n / 64 % 64 + 128), .ofNat (n % 64 + 128)]

theorem encodeChar_eq (c : Char) :
    String.utf8EncodeChar c = encodeNumber c.toNat := rfl

theorem isContinuation_byte {b : Nat} (h : b < 64) :
    isContinuation (.ofNat (b + 128)) = true := by
  simp [isContinuation, UInt8.le_iff_toNat_le]
  omega

theorem secondOfThree_bytes {a b : Nat} (ha : a < 16) (hb : b < 64)
    (hshort : a = 0 -> 32 ≤ b) (hsurrogate : a = 13 -> b < 32) :
    secondOfThree (.ofNat (a + 224)) (.ofNat (b + 128)) = true := by
  simp [secondOfThree, UInt8.le_iff_toNat_le, ← UInt8.toNat_inj]
  omega

theorem secondOfFour_bytes {a b : Nat} (ha : a ≤ 4) (hb : b < 64)
    (hshort : a = 0 -> 16 ≤ b) (hlast : a = 4 -> b < 16) :
    secondOfFour (.ofNat (a + 240)) (.ofNat (b + 128)) = true := by
  simp [secondOfFour, UInt8.le_iff_toNat_le, ← UInt8.toNat_inj]
  omega

section Decode

variable {n : Nat} (rest : List UInt8)

theorem decodeFirst_one (h : n ≤ 0x7f) :
    decodeFirst (encodeNumber n ++ rest) = .ok (Char.ofNat n, 1) := by
  have h0 : (UInt8.ofNat n).toNat = n := toNat_byte (by omega)
  unfold encodeNumber
  rw [if_pos h]
  simp only [List.cons_append, List.nil_append, decodeFirst]
  rw [if_pos, h0]
  rw [UInt8.lt_iff_toNat_lt, h0]
  exact Nat.lt_succ_of_le h

theorem decodeFirst_two (hlow : 0x7f < n) (hhigh : n ≤ 0x7ff) :
    decodeFirst (encodeNumber n ++ rest) = .ok (Char.ofNat n, 2) := by
  have h0 : (UInt8.ofNat (n / 64 % 32 + 192)).toNat = n / 64 % 32 + 192 :=
    toNat_byte (by omega)
  have h1 : (UInt8.ofNat (n % 64 + 128)).toNat = n % 64 + 128 :=
    toNat_byte (by omega)
  have hn : (n / 64 % 32 + 192) % 32 * 64 + (n % 64 + 128) % 64 = n := by omega
  unfold encodeNumber
  rw [if_neg (by omega), if_pos hhigh]
  simp only [List.cons_append, List.nil_append, decodeFirst]
  rw [if_neg, if_pos, if_pos, h0, h1, hn]
  · exact isContinuation_byte (by omega)
  · simp [UInt8.le_iff_toNat_le]
    omega
  · rw [UInt8.lt_iff_toNat_lt, h0]
    exact Nat.not_lt.mpr (by change 128 ≤ _; omega)

theorem decodeFirst_three (hlow : 0x7ff < n) (hhigh : n ≤ 0xffff)
    (hvalid : n < 0xD800 ∨ 0xDFFF < n) :
    decodeFirst (encodeNumber n ++ rest) = .ok (Char.ofNat n, 3) := by
  have h0 : (UInt8.ofNat (n / 4096 % 16 + 224)).toNat = n / 4096 % 16 + 224 :=
    toNat_byte (by omega)
  have h1 : (UInt8.ofNat (n / 64 % 64 + 128)).toNat = n / 64 % 64 + 128 :=
    toNat_byte (by omega)
  have h2 : (UInt8.ofNat (n % 64 + 128)).toNat = n % 64 + 128 :=
    toNat_byte (by omega)
  have hn : (n / 4096 % 16 + 224) % 16 * 4096 + (n / 64 % 64 + 128) % 64 * 64 +
      (n % 64 + 128) % 64 = n := by
    omega
  unfold encodeNumber
  rw [if_neg (by omega), if_neg (by omega), if_pos hhigh]
  simp only [List.cons_append, List.nil_append, decodeFirst]
  rw [if_neg, if_neg, if_pos, if_neg, if_pos, h0, h1, h2, hn]
  · exact isContinuation_byte (by omega)
  · rw [secondOfThree_bytes (by omega) (by omega) (by omega) (by omega)]
    exact Bool.false_ne_true
  · simp [UInt8.le_iff_toNat_le]
    omega
  · simp [UInt8.le_iff_toNat_le]
    omega
  · rw [UInt8.lt_iff_toNat_lt, h0]
    exact Nat.not_lt.mpr (by change 128 ≤ _; omega)

theorem decodeFirst_four (hlow : 0xffff < n) (hhigh : n < 0x110000) :
    decodeFirst (encodeNumber n ++ rest) = .ok (Char.ofNat n, 4) := by
  have h0 : (UInt8.ofNat (n / 262144 % 8 + 240)).toNat = n / 262144 % 8 + 240 :=
    toNat_byte (by omega)
  have h1 : (UInt8.ofNat (n / 4096 % 64 + 128)).toNat = n / 4096 % 64 + 128 :=
    toNat_byte (by omega)
  have h2 : (UInt8.ofNat (n / 64 % 64 + 128)).toNat = n / 64 % 64 + 128 :=
    toNat_byte (by omega)
  have h3 : (UInt8.ofNat (n % 64 + 128)).toNat = n % 64 + 128 :=
    toNat_byte (by omega)
  have hn : (n / 262144 % 8 + 240) % 8 * 262144 +
      (n / 4096 % 64 + 128) % 64 * 4096 + (n / 64 % 64 + 128) % 64 * 64 +
      (n % 64 + 128) % 64 = n := by
    omega
  unfold encodeNumber
  rw [if_neg (by omega), if_neg (by omega), if_neg (by omega)]
  simp only [List.cons_append, List.nil_append, decodeFirst]
  rw [if_neg, if_neg, if_neg, if_pos, if_neg, if_neg, if_pos, h0, h1, h2, h3, hn]
  · exact isContinuation_byte (by omega)
  · rw [isContinuation_byte (by omega)]
    exact Bool.false_ne_true
  · rw [secondOfFour_bytes (by omega) (by omega) (by omega) (by omega)]
    exact Bool.false_ne_true
  · simp [UInt8.le_iff_toNat_le]
    omega
  · simp [UInt8.le_iff_toNat_le]
    omega
  · simp [UInt8.le_iff_toNat_le]
    omega
  · rw [UInt8.lt_iff_toNat_lt, h0]
    exact Nat.not_lt.mpr (by change 128 ≤ _; omega)

theorem decodeFirst_encodeChar (c : Char) :
    decodeFirst (String.utf8EncodeChar c ++ rest) =
      .ok (c, (String.utf8EncodeChar c).length) := by
  have hback : Char.ofNat c.toNat = c := Char.ofNat_toNat c
  have htop := char_toNat_lt c
  have hvalid := c.valid
  change c.toNat.isValidChar at hvalid
  unfold Nat.isValidChar at hvalid
  rw [encodeChar_eq]
  generalize hn : c.toNat = n at *
  have hlen : (encodeNumber n).length =
      if n ≤ 0x7f then 1 else if n ≤ 0x7ff then 2 else if n ≤ 0xffff then 3
      else 4 := by
    unfold encodeNumber
    split
    · rfl
    · split
      · rfl
      · split <;> rfl
  rw [hlen]
  by_cases h1 : n ≤ 0x7f
  · rw [if_pos h1, decodeFirst_one rest h1, hback]
  · rw [if_neg h1]
    by_cases h2 : n ≤ 0x7ff
    · rw [if_pos h2, decodeFirst_two rest (by omega) h2, hback]
    · rw [if_neg h2]
      by_cases h3 : n ≤ 0xffff
      · rw [if_pos h3, decodeFirst_three rest (by omega) h3 (by omega), hback]
      · rw [if_neg h3, decodeFirst_four rest (by omega) htop, hback]

end Decode

theorem validate_encode (t : Text) (fuel : Nat)
    (hfuel : (encode t).length ≤ fuel) :
    validate fuel (encode t) = (t, (encode t).length, none) := by
  induction t generalizing fuel with
  | nil => cases fuel <;> rfl
  | cons c t ih =>
      rcases encodeChar_eq_cons c with ⟨b, bs, hb⟩
      have hdecode := decodeFirst_encodeChar (encode t) c
      rw [encode_cons, hb, List.length_append, List.length_cons] at hfuel
      cases fuel with
      | zero => omega
      | succ fuel =>
          rw [encode_cons, hb] at *
          rw [List.cons_append] at *
          rw [validate, hdecode]
          simp only [← List.cons_append, List.drop_left, List.length_append]
          rw [ih fuel (by omega)]

theorem fromUtf8_encode (t : Text) : fromUtf8 (encode t) = .ok t := by
  unfold fromUtf8
  rw [validate_encode t _ (Nat.le_refl _)]

theorem encode_injective {s t : Text} (h : encode s = encode t) : s = t := by
  have hs := fromUtf8_encode s
  rw [h, fromUtf8_encode t] at hs
  cases hs
  rfl

def char (b : UInt8) : Char :=
  Char.ofNat b.toNat

theorem toNat_char {b : UInt8} (h : b.toNat < 128) : (char b).toNat = b.toNat := by
  have hvalid : b.toNat.isValidChar := Or.inl (by omega)
  unfold char Char.ofNat
  rw [dif_pos hvalid]
  rfl

theorem encode_chars {bs : List UInt8} (h : forall b, b ∈ bs -> b.toNat < 128) :
    encode (bs.map char) = bs := by
  induction bs with
  | nil => rfl
  | cons b bs ih =>
      have hb := h b List.mem_cons_self
      rw [List.map_cons, encode_cons, encodeChar_of_ascii, toNat_char hb,
        UInt8.ofNat_toNat, ih fun x hx => h x (List.mem_cons_of_mem b hx)]
      · rfl
      · rw [toNat_char hb]
        exact hb

theorem fromUtf8_ascii {bs : List UInt8} (h : forall b, b ∈ bs -> b.toNat < 128) :
    fromUtf8 bs = .ok (bs.map char) := by
  have htext := fromUtf8_encode (bs.map char)
  rwa [encode_chars h] at htext

theorem fromUtf8_cons {b : UInt8} {bs : List UInt8} {t : Text} (hb : b.toNat < 128)
    (h : fromUtf8 (b :: bs) = .ok t) : exists rest, t = char b :: rest := by
  have hfirst : decodeFirst (b :: bs) = .ok (char b, 1) := by
    have hlow : b < 0x80 := UInt8.lt_iff_toNat_lt.mpr hb
    unfold decodeFirst
    simp only [if_pos hlow]
    rfl
  unfold fromUtf8 at h
  rw [List.length_cons, validate, hfirst] at h
  simp only at h
  split at h
  · rename_i heq
    injection heq with htext _
    injection h with ht
    exact ⟨_, by rw [← ht, ← htext]⟩
  · cases h

/-! ### Any input -/

theorem decodeFirst_width {bytes : List UInt8} {c : Char} {width : Nat}
    (h : decodeFirst bytes = .ok (c, width)) :
    1 ≤ width ∧ width ≤ bytes.length := by
  unfold decodeFirst at h
  repeat' split at h
  all_goals cases h
  all_goals simp

theorem decodeFirst_error {bytes : List UInt8} {k : Nat}
    (h : decodeFirst bytes = .error (some k)) : 1 ≤ k ∧ k ≤ bytes.length := by
  unfold decodeFirst at h
  repeat' split at h
  all_goals cases h
  all_goals simp

structure Error.Within (e : Error) (bytes : List UInt8) : Prop where
  validUpTo_lt : e.validUpTo < bytes.length
  errorLen_pos : forall k, e.errorLen = some k -> 1 ≤ k
  errorLen_le : forall k, e.errorLen = some k -> e.validUpTo + k ≤ bytes.length

theorem validate_within (fuel : Nat) {bytes : List UInt8} {t : Text} {n : Nat}
    {errorLen : Option Nat} (h : validate fuel bytes = (t, n, some errorLen)) :
    Error.Within ⟨n, errorLen⟩ bytes := by
  induction fuel generalizing bytes t n with
  | zero => cases h
  | succ fuel ih =>
      cases bytes with
      | nil => cases h
      | cons b bs =>
          rw [validate] at h
          cases hdecode : decodeFirst (b :: bs) with
          | error e =>
              rw [hdecode] at h
              cases h
              refine ⟨by simp, ?_, ?_⟩
              · intro k heq
                subst heq
                exact (decodeFirst_error hdecode).1
              · intro k heq
                subst heq
                simpa using (decodeFirst_error hdecode).2
          | ok r =>
              rcases r with ⟨c, width⟩
              rcases hrest : validate fuel ((b :: bs).drop width) with ⟨t', n', e'⟩
              rw [hdecode] at h
              simp only [hrest] at h
              cases h
              have hwidth := decodeFirst_width hdecode
              rcases ih hrest with ⟨hlt, hpos, hle⟩
              rw [List.length_drop] at hlt hle
              refine ⟨?_, hpos, ?_⟩
              · simp only at hlt ⊢
                omega
              · intro k hk
                have hfits := hle k hk
                simp only at hfits hlt ⊢
                omega

theorem fromUtf8_within {bytes : List UInt8} {e : Error}
    (h : fromUtf8 bytes = .error e) : e.Within bytes := by
  unfold fromUtf8 at h
  rcases hvalidate : validate bytes.length bytes with ⟨t, n, errorLen⟩
  rw [hvalidate] at h
  cases errorLen with
  | none => cases h
  | some errorLen =>
      cases h
      exact validate_within _ hvalidate

end Utf8
end Foundation
end TWA
