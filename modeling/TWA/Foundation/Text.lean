import Mathlib.Tactic.Common

/-!
# Texts

A text is the list of its characters.  This module has the operations of the
standard library on texts that programs parse with: trimming white space and
reading an unsigned number.
-/

namespace TWA
namespace Foundation

abbrev Text := List Char

namespace Text

def lit (s : String) : Text :=
  s.toList

/-- The Unicode `White_Space` characters. -/
def isWhitespace (c : Char) : Bool :=
  (0x9 ≤ c.toNat && c.toNat ≤ 0xD) || c.toNat == 0x20 || c.toNat == 0x85 ||
    c.toNat == 0xA0 || c.toNat == 0x1680 ||
    (0x2000 ≤ c.toNat && c.toNat ≤ 0x200A) || c.toNat == 0x2028 ||
    c.toNat == 0x2029 || c.toNat == 0x202F || c.toNat == 0x205F ||
    c.toNat == 0x3000

def trim (t : Text) : Text :=
  ((t.dropWhile isWhitespace).reverse.dropWhile isWhitespace).reverse

theorem getLast?_trim {t : Text} (h : trim t ≠ []) :
    exists c, (trim t).getLast? = some c ∧ isWhitespace c = false := by
  unfold trim at h ⊢
  rw [List.getLast?_reverse]
  cases hcase : (t.dropWhile isWhitespace).reverse.dropWhile isWhitespace with
  | nil =>
      rw [hcase] at h
      exact absurd rfl h
  | cons c rest =>
      refine ⟨c, rfl, ?_⟩
      have hhead := List.head_dropWhile_not isWhitespace
        (l := (t.dropWhile isWhitespace).reverse) (by rw [hcase]; simp)
      simpa [hcase] using hhead

theorem dropWhile_of_none {t : Text}
    (h : forall c, c ∈ t -> isWhitespace c = false) :
    t.dropWhile isWhitespace = t := by
  cases t with
  | nil => rfl
  | cons c t =>
      rw [List.dropWhile_cons, h c List.mem_cons_self]
      rfl

theorem trim_of_none {t : Text}
    (h : forall c, c ∈ t -> isWhitespace c = false) : trim t = t := by
  unfold trim
  rw [dropWhile_of_none h, dropWhile_of_none, List.reverse_reverse]
  intro c hc
  exact h c (List.mem_reverse.mp hc)

theorem trim_cons {c : Char} (t : Text) (h : isWhitespace c = false) :
    exists rest, trim (c :: t) = c :: rest := by
  unfold trim
  rw [List.dropWhile_cons, h, if_neg Bool.false_ne_true, List.reverse_cons,
    List.dropWhile_append]
  split
  · rw [List.dropWhile_cons, h]
    exact ⟨[], rfl⟩
  · rw [List.reverse_append]
    exact ⟨_, rfl⟩

/-!
## Reading a number
-/

def isDigit (c : Char) : Bool :=
  '0'.toNat ≤ c.toNat && c.toNat ≤ '9'.toNat

def digitValue (c : Char) : Nat :=
  c.toNat - '0'.toNat

/-- The digits after those of value `acc`, unless the value leaves `u32`. -/
def parseDigits : Nat -> Text -> Option Nat
  | acc, [] => some acc
  | acc, c :: rest =>
      if isDigit c then
        if 10 * acc + digitValue c < UInt32.size then
          parseDigits (10 * acc + digitValue c) rest
        else
          none
      else
        none

/-- Reading a `u32`: an optional plus sign and at least one digit. -/
def parseU32 : Text -> Option UInt32
  | [] => none
  | c :: rest =>
      if c = '+' then
        if rest = [] then none
        else (parseDigits 0 rest).map UInt32.ofNat
      else
        (parseDigits 0 (c :: rest)).map UInt32.ofNat

theorem parseU32_none {c : Char} (t : Text) (hsign : c ≠ '+')
    (hdigit : isDigit c = false) : parseU32 (c :: t) = none := by
  rw [parseU32, if_neg hsign, parseDigits, hdigit]
  rfl

def decimal (t : Text) : Nat :=
  t.foldl (fun acc c => 10 * acc + digitValue c) 0

theorem le_foldl_digits (t : Text) (acc : Nat) :
    acc ≤ t.foldl (fun acc c => 10 * acc + digitValue c) acc := by
  induction t generalizing acc with
  | nil => exact Nat.le_refl acc
  | cons c t ih =>
      rw [List.foldl_cons]
      have hnext := ih (10 * acc + digitValue c)
      omega

theorem parseDigits_eq (t : Text) (acc : Nat) (hacc : acc < UInt32.size) :
    parseDigits acc t =
      if t.all isDigit ∧
          t.foldl (fun acc c => 10 * acc + digitValue c) acc < UInt32.size then
        some (t.foldl (fun acc c => 10 * acc + digitValue c) acc)
      else
        none := by
  induction t generalizing acc with
  | nil =>
      rw [if_pos ⟨rfl, hacc⟩]
      rfl
  | cons c t ih =>
      rw [parseDigits, List.foldl_cons, List.all_cons]
      cases hdigit : isDigit c with
      | false => simp
      | true =>
          by_cases hnext : 10 * acc + digitValue c < UInt32.size
          · rw [if_pos rfl, if_pos hnext, ih _ hnext, Bool.true_and]
          · rw [if_pos rfl, if_neg hnext, if_neg]
            intro hboth
            rcases hboth with ⟨_, hfits⟩
            have hle := le_foldl_digits t (10 * acc + digitValue c)
            omega

/-- Without a sign, exactly the digit sequences that fit are read. -/
theorem parseU32_eq {t : Text} (hne : t ≠ []) (hsign : t.head? ≠ some '+') :
    parseU32 t =
      if t.all isDigit ∧ decimal t < UInt32.size then some (UInt32.ofNat (decimal t))
      else none := by
  cases t with
  | nil => exact absurd rfl hne
  | cons c t =>
      have hc : c ≠ '+' := by
        intro heq
        subst heq
        exact hsign rfl
      rw [parseU32, if_neg hc, parseDigits_eq _ _ (by decide)]
      unfold decimal
      split <;> rfl

end Text
end Foundation
end TWA
